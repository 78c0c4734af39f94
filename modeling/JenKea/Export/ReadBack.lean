import JenKea.Export.Rows
import JenKea.Lib.Except

/-!
# Rows that are exported and read back

A row that `_clean_row` writes is decoded by `_decode_import_rows` to the values that it had, and so is a row of
the formats before, which wrote the bytes of a binary column as bare hex. A string for a binary column that is
neither is refused, and the table with it: all but pairs of hexadecimal digits with a line feed after them, which
the `$` of `_HEX_PAIRS` lets through.
-/

namespace JenKea.Export

open Json (Fields lookup)

/-! ## What is refused -/

/-- A value that `_decode_import_rows` refuses: a tag whose value is no hex, or a string for a binary column. -/
def refusedValue (binary : Bool) (format : ℤ) : Json → Bool
  | .obj fields =>
    Json.keysAre [BIN_TAG] fields && match lookup BIN_TAG fields with
      | some (.str h) => (fromHex h).isNone
      | _ => true
  | .str text => binary && (decide (3 ≤ format) || (fromHex text).isNone)
  | _ => false

/-- The values of a table, each with whether its column is binary. -/
def cellsFor (rows : List Fields) (cols binary : List String) : List (Bool × Json) :=
  rows.flatMap fun row => cols.map fun c => (decide (c ∈ binary), (lookup c row).getD .null)

/-- The strings that a table holds for binary columns. -/
def bareStrings (rows : List Fields) (cols binary : List String) : List String :=
  (cellsFor rows cols binary).filterMap fun
    | (true, .str text) => some text
    | _ => none

/-- A string that is pairs of hexadecimal digits, and nothing more. -/
def isBareHex (text : String) : Bool := (hexPairs text.toList).isSome

/-- Pairs of hexadecimal digits, with a line feed after them. -/
def isHexWithNewline (text : String) : Bool :=
  text.toList.getLast? == some '\n' && (hexPairs text.toList.dropLast).isSome

section Refused

variable {table column : String} {n : ℕ} {binary : Bool} {format : ℤ} {v : Json} {text : String}

/-- A value is refused with an error of its own kind. -/
theorem decodeValue_of_refused (h : refusedValue binary format v = true) :
    ∃ why, decodeValue table column n binary format v = .error (.binaryValueError why) := by
  cases v with
  | obj fields =>
    obtain ⟨hkeys, htag⟩ := Bool.and_eq_true_iff.mp h
    unfold decodeValue
    dsimp only
    rw [if_pos hkeys]
    by_cases hstring : ∃ hex, lookup BIN_TAG fields = some (.str hex)
    · obtain ⟨hex, hlookup⟩ := hstring
      rw [hlookup] at htag ⊢
      dsimp only at htag ⊢
      rw [Option.isNone_iff_eq_none.mp htag]
      exact ⟨_, rfl⟩
    · clear htag
      split
      · next hex hsome => exact absurd ⟨hex, hsome⟩ hstring
      · exact ⟨_, rfl⟩
  | str text =>
    obtain ⟨hbinary, hwhy⟩ := Bool.and_eq_true_iff.mp h
    unfold decodeValue
    dsimp only
    rw [if_pos hbinary]
    by_cases hformat : 3 ≤ format
    · rw [if_pos hformat]
      exact ⟨_, rfl⟩
    · have hnone : (fromHex text).isNone = true := by simpa [hformat] using hwhy
      rw [if_neg hformat, Option.isNone_iff_eq_none.mp hnone]
      exact ⟨_, rfl⟩
  | null | bool _ | int _ | float _ | arr _ => cases h

/-- A value that is not refused is decoded. -/
theorem decodeValue_of_not_refused (h : refusedValue binary format v = false) :
    ∃ value, decodeValue table column n binary format v = .ok value := by
  cases v with
  | obj fields =>
    unfold decodeValue
    dsimp only
    by_cases hkeys : Json.keysAre [BIN_TAG] fields = true
    · have htag : (Json.keysAre [BIN_TAG] fields && match lookup BIN_TAG fields with
          | some (.str h) => (fromHex h).isNone
          | _ => true) = false := h
      rw [hkeys, Bool.true_and] at htag
      rw [if_pos hkeys]
      by_cases hstring : ∃ hex, lookup BIN_TAG fields = some (.str hex)
      · obtain ⟨hex, hlookup⟩ := hstring
        rw [hlookup] at htag ⊢
        dsimp only at htag ⊢
        obtain ⟨bytes, hbytes⟩ := Option.isSome_iff_exists.mp (by simpa using htag)
        rw [hbytes]
        exact ⟨_, rfl⟩
      · exfalso
        split at htag
        · next hex hsome => exact hstring ⟨hex, hsome⟩
        · cases htag
    · rw [if_neg hkeys]
      exact ⟨_, rfl⟩
  | str text =>
    unfold decodeValue
    dsimp only
    cases binary with
    | false => exact ⟨_, rfl⟩
    | true =>
      have hformat : ¬ 3 ≤ format := fun hformat => by simp [refusedValue, hformat] at h
      have hsome : (fromHex text).isSome = true := by simpa [refusedValue, hformat] using h
      obtain ⟨bytes, hbytes⟩ := Option.isSome_iff_exists.mp hsome
      rw [if_pos rfl, if_neg hformat, hbytes]
      exact ⟨_, rfl⟩
  | null | bool _ | int _ | float _ | arr _ => exact ⟨_, rfl⟩

end Refused

section Table

variable {table : String} {rows : List Fields} {cols binary : List String} {format : ℤ} {text : String}

/-- A table is refused just where one of its values is, and always with a `BinaryValueError`. -/
theorem decodeImportRows_refused_iff :
    (∃ why, decodeImportRows table rows cols binary format = .error (.binaryValueError why)) ↔
      ∃ x ∈ cellsFor rows cols binary, refusedValue x.1 format x.2 = true := by
  constructor
  · rintro ⟨why, h⟩
    obtain ⟨⟨row, n⟩, hrow, hvalues⟩ := Except.exists_mem_of_mapM_error h
    obtain ⟨c, hc, hvalue⟩ := Except.exists_mem_of_mapM_error hvalues
    refine ⟨(decide (c ∈ binary), (lookup c row).getD .null), ?_, ?_⟩
    · exact List.mem_flatMap.mpr ⟨row, List.fst_mem_of_mem_zipIdx hrow, List.mem_map_of_mem hc⟩
    · by_contra hnot
      obtain ⟨value, hok⟩ := @decodeValue_of_not_refused table c (n + 1) _ _ _ (Bool.eq_false_iff.mpr hnot)
      rw [hok] at hvalue
      cases hvalue
  · rintro ⟨x, hx, hrefused⟩
    obtain ⟨row, hrow, hcell⟩ := List.mem_flatMap.mp hx
    obtain ⟨c, hc, rfl⟩ := List.mem_map.mp hcell
    obtain ⟨⟨row', n⟩, hn, rfl⟩ := List.mem_map.mp (List.zipIdx_map_fst 0 rows ▸ hrow)
    obtain ⟨why, hvalue⟩ := @decodeValue_of_refused table c (n + 1) _ _ _ hrefused
    obtain ⟨e, hvalues⟩ := @Except.exists_mapM_error _ _ _ cols (fun c =>
      decodeValue table c (n + 1) (decide (c ∈ binary)) format ((lookup c row').getD .null)) c _ hc hvalue
    obtain ⟨e', htable⟩ := @Except.exists_mapM_error _ _ _ rows.zipIdx (fun x => cols.mapM fun c =>
      decodeValue table c (x.2 + 1) (decide (c ∈ binary)) format ((lookup c x.1).getD .null)) _ _ hn hvalues
    -- every value raises an error of the one kind, so the table does
    obtain ⟨⟨row'', n'⟩, -, herror⟩ := Except.exists_mem_of_mapM_error htable
    obtain ⟨c', -, herror'⟩ := Except.exists_mem_of_mapM_error herror
    cases hkind : refusedValue (decide (c' ∈ binary)) format ((lookup c' row'').getD .null) with
    | true =>
      obtain ⟨why', hwhy⟩ := @decodeValue_of_refused table c' (n' + 1) _ _ _ hkind
      rw [hwhy] at herror'
      obtain rfl := Except.error.inj herror'
      exact ⟨why', htable⟩
    | false =>
      obtain ⟨value, hok⟩ := @decodeValue_of_not_refused table c' (n' + 1) _ _ _ hkind
      rw [hok] at herror'
      cases herror'

end Table

/-! ## The values that are read back -/

/-- A value of the row, as it is bound. -/
def Cell.original : Cell → Value
  | .null => .json .null
  | .int n => .json (.int n)
  | .float q => .json (.float q)
  | .text s => .json (.str s)
  | .bytes b => .bytes b
  | .datetime iso => .json (.str iso)
  | .other s => .json (.str s)

theorem boundOf_eq_original (cell : Cell) : boundOf cell = cell.original := by cases cell <;> rfl

/-- A value that an export writes as a string. -/
def Cell.isText : Cell → Bool
  | .text _ | .datetime _ | .other _ => true
  | _ => false

/-- A value as the formats before wrote it: bytes are bare hex. -/
def bareCell : Cell → Json
  | .bytes b => .str (toHex b)
  | cell => cleanCell cell

/-- A row as the formats before wrote it. -/
def bareRow (row : Row) : Fields := row.map fun x => (x.1, bareCell x.2)

/-- Rows are read back as they were, and strings that are no binary values are refused. -/
structure ReadBack (table : String) (cols binary : List String) (format : ℤ) (rows : List Fields) : Prop where
  /-- What format 3 writes, where no text is bound for a binary column. -/
  tagged : ∀ exported : List Row,
    (∀ row ∈ exported, ∀ c ∈ cols, c ∈ binary → (cellOf row c).isText = false) →
    decodeImportRows table (exported.map cleanRow) cols binary EXPORT_FORMAT =
      .ok (exported.map fun row => cols.map fun c => (cellOf row c).original)
  /-- What the formats before wrote, where the binary columns are those that hold bytes. -/
  bare : format < 3 → ∀ exported : List Row,
    (∀ row ∈ exported, ∀ c ∈ cols, c ∈ binary → (cellOf row c).isText = false) →
    (∀ row ∈ exported, ∀ c ∈ cols, c ∉ binary → ∀ b, cellOf row c ≠ .bytes b) →
    decodeImportRows table (exported.map bareRow) cols binary format =
      .ok (exported.map fun row => cols.map fun c => (cellOf row c).original)
  /-- Any other string for a binary column: in format 3 each one, before it all that are not bare hex. -/
  refused : (∃ text ∈ bareStrings rows cols binary, 3 ≤ format ∨ isBareHex text = false) →
    ∃ why, decodeImportRows table rows cols binary format = .error (.binaryValueError why)

/-- A string for a binary column is a value of the table. -/
theorem mem_cellsFor_of_bareStrings {rows : List Fields} {cols binary : List String} {text : String}
    (h : text ∈ bareStrings rows cols binary) : (true, Json.str text) ∈ cellsFor rows cols binary := by
  obtain ⟨x, hx, htext⟩ := List.mem_filterMap.mp h
  split at htext
  · obtain rfl := Option.some.inj htext
    exact hx
  · cases htext

/-! ## Reading back -/

section Cells

variable {table : String} {cols binary : List String} {format : ℤ} {write : Cell → Json}

/-- The value of a column in a row that is written. -/
theorem lookup_written (hnull : write .null = .null) (row : Row) (column : String) :
    (lookup column (row.map fun x => (x.1, write x.2))).getD .null = write (cellOf row column) := by
  unfold cellOf
  induction row with
  | nil => exact hnull.symm
  | cons x row ih =>
    obtain ⟨c, v⟩ := x
    rw [List.map_cons, Json.lookup_cons, List.lookup_cons]
    by_cases hc : c = column
    · subst hc
      simp
    · have hne : (column == c) = false := beq_eq_false_iff_ne.mpr (Ne.symm hc)
      rw [if_neg hc, hne]
      exact ih

/-- Rows whose values are each read back are read back. -/
theorem decodeImportRows_written {exported : List Row} (hnull : write .null = .null)
    (h : ∀ row ∈ exported, ∀ c ∈ cols, ∀ n, decodeValue table c n (c ∈ binary) format (write (cellOf row c)) =
      .ok (cellOf row c).original) :
    decodeImportRows table (exported.map fun row => row.map fun x => (x.1, write x.2)) cols binary format =
      .ok (exported.map fun row => cols.map fun c => (cellOf row c).original) := by
  have hrow : ∀ x ∈ exported.zipIdx, (cols.mapM fun c => decodeValue table c (x.2 + 1) (c ∈ binary) format
      ((lookup c (x.1.map fun y => (y.1, write y.2))).getD .null)) =
        pure (cols.map fun c => (cellOf x.1 c).original) := by
    intro x hx
    refine Loop.mapM_eq_pure fun c hc => ?_
    rw [lookup_written hnull]
    exact h x.1 (List.fst_mem_of_mem_zipIdx hx) c hc (x.2 + 1)
  unfold decodeImportRows
  rw [List.zipIdx_map, List.mapM_map]
  refine (Loop.mapM_eq_pure hrow).trans ?_
  have hfst : exported.zipIdx.map (fun x => cols.map fun c => (cellOf x.1 c).original) =
      (exported.zipIdx.map Prod.fst).map fun row => cols.map fun c => (cellOf row c).original := by
    rw [List.map_map]
    rfl
  rw [hfst, List.zipIdx_map_fst]
  rfl

/-- What format 3 writes of a value is read back, in any column that takes it. -/
theorem decodeValue_cleanCell_original {column : String} {n : ℕ} {isBinary : Bool} {cell : Cell}
    (h : isBinary = true → cell.isText = false) :
    decodeValue table column n isBinary format (cleanCell cell) = .ok cell.original := by
  have hbound : (isBinary = true → cell.IsBinary) →
      decodeValue table column n isBinary format (cleanCell cell) = .ok cell.original := fun hbinary =>
    (decodeValue_cleanCell hbinary).trans (congrArg _ (boundOf_eq_original cell))
  cases isBinary with
  | false => exact hbound fun hfalse => absurd hfalse Bool.false_ne_true
  | true =>
    cases cell with
    | null => exact hbound fun _ => trivial
    | bytes b => exact hbound fun _ => trivial
    | int _ | float _ => rfl
    | text _ | datetime _ | other _ => cases h rfl

/-- What the formats before wrote of a value is read back, where bytes stand in binary columns. -/
theorem decodeValue_bareCell {column : String} {n : ℕ} {isBinary : Bool} {cell : Cell} (hformat : format < 3)
    (htext : isBinary = true → cell.isText = false) (hbytes : isBinary = false → ∀ b, cell ≠ .bytes b) :
    decodeValue table column n isBinary format (bareCell cell) = .ok cell.original := by
  cases cell with
  | bytes b =>
    cases isBinary with
    | false => exact absurd rfl (hbytes rfl b)
    | true =>
      have hno : ¬ 3 ≤ format := by omega
      show decodeValue table column n true format (.str (toHex b)) = _
      unfold decodeValue
      dsimp only
      rw [if_pos rfl, if_neg hno, fromHex_toHex]
      rfl
  | null | int _ | float _ | text _ | datetime _ | other _ => exact decodeValue_cleanCell_original htext

end Cells

/-! ## Strings with a line feed after them -/

theorem isSome_hexDigit_of_hexPairs :
    ∀ {cs : List Char}, (hexPairs cs).isSome = true → ∀ c ∈ cs, (hexDigit c).isSome = true
  | [], _ => by simp
  | [_], h => nomatch h
  | c :: d :: cs, h => by
    unfold hexPairs at h
    split at h
    · next m n bytes hm hn hbytes =>
      have hrest : ∀ x ∈ cs, (hexDigit x).isSome = true :=
        isSome_hexDigit_of_hexPairs (by rw [hbytes]; rfl)
      intro x hx
      rcases List.mem_cons.mp hx with rfl | hx
      · rw [hm]
        rfl
      · rcases List.mem_cons.mp hx with rfl | hx
        · rw [hn]
          rfl
        · exact hrest x hx
    · cases h

/-- What has a line feed at its end is no bare hex. -/
theorem not_isBareHex_of_newline {text : String} (h : isHexWithNewline text = true) : isBareHex text = false := by
  obtain ⟨hlast, -⟩ := Bool.and_eq_true_iff.mp h
  refine Bool.eq_false_iff.mpr fun hbare => ?_
  have hnewline : '\n' ∈ text.toList := List.mem_of_getLast? (by simpa using hlast)
  have hdigit := isSome_hexDigit_of_hexPairs hbare '\n' hnewline
  exact absurd hdigit (by decide)

/-- `_HEX_PAIRS` matches bare hex, and bare hex with a line feed after it. -/
theorem isSome_fromHex_iff {text : String} :
    (fromHex text).isSome = true ↔ isBareHex text = true ∨ isHexWithNewline text = true := by
  unfold fromHex dropNewline isBareHex isHexWithNewline
  by_cases hlast : text.toList.getLast? = some '\n'
  · rw [if_pos hlast]
    constructor
    · intro h
      exact .inr (by rw [hlast, h]; rfl)
    · rintro (h | h)
      · -- a line feed is no digit
        have hnewline : '\n' ∈ text.toList := List.mem_of_getLast? hlast
        exact absurd (isSome_hexDigit_of_hexPairs h '\n' hnewline) (by decide)
      · exact (Bool.and_eq_true_iff.mp h).2
  · rw [if_neg hlast]
    simp [hlast]

/-! ## The tables that are read back -/

/-- The rows are read back as the format says, unless a string for a binary column is pairs of hexadecimal digits
with a line feed after them, and nothing else of the table is refused. -/
theorem readBack_iff (table : String) (cols binary : List String) (format : ℤ) (rows : List Fields) :
    ReadBack table cols binary format rows ↔
      (∀ text ∈ bareStrings rows cols binary, isHexWithNewline text = false) ∨
        ∃ x ∈ cellsFor rows cols binary, refusedValue x.1 format x.2 = true := by
  constructor
  · intro h
    by_cases hnone : ∀ text ∈ bareStrings rows cols binary, isHexWithNewline text = false
    · exact .inl hnone
    · push Not at hnone
      obtain ⟨text, hmem, hnewline⟩ := hnone
      have hbare := not_isBareHex_of_newline (Bool.eq_true_of_not_eq_false hnewline)
      exact .inr (decodeImportRows_refused_iff.mp (h.refused ⟨text, hmem, .inr hbare⟩))
  · intro h
    refine ⟨fun exported htext => ?_, fun hformat exported htext hbytes => ?_, ?_⟩
    · exact decodeImportRows_written rfl fun row hrow c hc n =>
        decodeValue_cleanCell_original fun hbinary => htext row hrow c hc (of_decide_eq_true hbinary)
    · exact decodeImportRows_written rfl fun row hrow c hc n => decodeValue_bareCell hformat
        (fun hbinary => htext row hrow c hc (of_decide_eq_true hbinary))
        fun hbinary => hbytes row hrow c hc (of_decide_eq_false hbinary)
    · rintro ⟨text, hmem, hwhy⟩
      refine decodeImportRows_refused_iff.mpr (h.elim (fun hnone => ?_) id)
      refine ⟨(true, .str text), mem_cellsFor_of_bareStrings hmem, ?_⟩
      show (true && (decide (3 ≤ format) || (fromHex text).isNone)) = true
      rcases hwhy with hformat | hbare
      · rw [decide_eq_true hformat]
        rfl
      · have hno : ¬ (fromHex text).isSome = true := fun hsome => by
          rcases isSome_fromHex_iff.mp hsome with hhex | hnewline
          · rw [hhex] at hbare
            cases hbare
          · rw [hnone text hmem] at hnewline
            cases hnewline
        simp [Option.not_isSome_iff_eq_none.mp hno]

/-- Format 2 bound for a binary column the text `0a` and a line feed: it is decoded to one byte, and not refused. -/
theorem newline_decoded :
    ¬ ReadBack "hosts" ["dhcp_identifier"] ["dhcp_identifier"] 2 [[("dhcp_identifier", .str "0a\n")]] := by
  intro h
  obtain ⟨why, hwhy⟩ := h.refused ⟨"0a\n", by decide, .inr (by decide)⟩
  have hok : decodeImportRows "hosts" [[("dhcp_identifier", .str "0a\n")]] ["dhcp_identifier"]
      ["dhcp_identifier"] 2 = .ok [[.bytes [10]]] := by decide
  rw [hok] at hwhy
  cases hwhy

end JenKea.Export
