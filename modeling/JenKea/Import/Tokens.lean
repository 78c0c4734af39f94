import Mathlib.Data.List.Chain
import Mathlib.Data.List.TakeWhile
import JenKea.Import.Isc
import JenKea.Lib.Text

/-!
# The tokens of a `dhcpd.conf`

`tokenize` of `jen/services/isc_dhcp_import.py`, and what a text looks like that writes a given list of
tokens: blanks and comments between them, a backslash before any character of a quoted one. `tokenize`
reads such a text back, each token with the line it ends on.
-/

namespace JenKea.Import

open Text (isSpace strip doubleQuote)

/-! ## The tokenizer -/

/-- `_PUNCT`. -/
def isPunct (c : Char) : Bool := ['{', '}', ';', ',', '(', ')', '='].contains c

/-- A character that a word goes on with. -/
def wordChar (c : Char) : Bool := !isSpace c && !isPunct c && c != doubleQuote && c != '#'

/-- How many lines a character ends. -/
def newline (c : Char) : ℕ := if c = '\n' then 1 else 0

/-- Reads a quoted word behind its opening quote: its characters, the line its end is on, and what
follows its closing quote. -/
def readQuoted (line : ℕ) : List Char → List Char × ℕ × List Char
  | [] => ([], line, [])
  | c :: cs =>
    if c = doubleQuote then ([], line, cs)
    else if c = '\\' then
      match cs with
      | [] => (['\\'], line, [])
      | d :: ds =>
        let read := readQuoted (line + newline d) ds
        (d :: read.1, read.2)
    else
      let read := readQuoted (line + newline c) cs
      (c :: read.1, read.2)

/-- What follows a quoted word is no longer than what follows its opening quote. -/
theorem readQuoted_length (line : ℕ) (cs : List Char) :
    (readQuoted line cs).2.2.length ≤ cs.length := by
  fun_induction readQuoted line cs with
  | case1 line => exact le_rfl
  | case2 line cs => exact Nat.le_succ _
  | case3 line => exact Nat.zero_le _
  | case4 line d ds _ _ ih => exact ih.trans (Nat.le_add_right _ 2)
  | case5 line c cs _ _ _ ih => exact ih.trans (Nat.le_succ _)

/-- The tokens of a text that starts on a line, and its comments with the lines they are on. -/
def scan (line : ℕ) : List Char → List Tok × List (ℕ × String)
  | [] => ([], [])
  | c :: cs =>
    if c = '\n' then scan (line + 1) cs
    else if isSpace c then scan line cs
    else if c = '#' then
      let read := scan line (cs.dropWhile (· ≠ '\n'))
      (read.1, (line, strip (String.ofList (cs.takeWhile (· ≠ '\n')))) :: read.2)
    else if c = doubleQuote then
      let quoted := readQuoted line cs
      let read := scan quoted.2.1 quoted.2.2
      (⟨String.ofList quoted.1, quoted.2.1, true⟩ :: read.1, read.2)
    else if isPunct c then
      let read := scan line cs
      (⟨String.singleton c, line, false⟩ :: read.1, read.2)
    else
      let read := scan line (cs.dropWhile wordChar)
      (⟨String.ofList (c :: cs.takeWhile wordChar), line, false⟩ :: read.1, read.2)
termination_by cs => cs.length
decreasing_by
  all_goals have hdrop := fun p => (List.dropWhile_suffix p (l := cs)).length_le
  all_goals have hread := readQuoted_length line cs
  all_goals simp only [List.length_cons]
  all_goals grind

/-- `tokenize`. -/
def tokenize (text : String) : List Tok × List (ℕ × String) := scan 1 text.toList

/-! ## Written tokens -/

/-- A token as a text writes it. A quoted one is written a character at a time, after a backslash or
not. -/
inductive Lexeme where
  | word (cs : List Char) (ne : cs ≠ []) (all : ∀ c ∈ cs, wordChar c = true)
  | sign (c : Char) (punct : isPunct c = true)
  | quoted (cs : List (Bool × Char))
      (plain : ∀ p ∈ cs, p.1 = false → p.2 ≠ doubleQuote ∧ p.2 ≠ '\\')

namespace Lexeme

/-- It is a word without quotes. -/
def isWord : Lexeme → Bool
  | .word .. => true
  | _ => false

/-- The text of the token, and whether it is quoted. -/
def token : Lexeme → String × Bool
  | .word cs .. => (String.ofList cs, false)
  | .sign c _ => (String.singleton c, false)
  | .quoted cs _ => (String.ofList (cs.map Prod.snd), true)

/-- A character of a quoted word, as it is written. -/
def escaped (p : Bool × Char) : List Char := if p.1 then ['\\', p.2] else [p.2]

/-- What stands in the text. -/
def chars : Lexeme → List Char
  | .word cs .. => cs
  | .sign c _ => [c]
  | .quoted cs _ => doubleQuote :: cs.flatMap escaped ++ [doubleQuote]

/-- How many lines end inside the token. -/
def newlines : Lexeme → ℕ
  | .quoted cs _ => (cs.map fun p => newline p.2).sum
  | _ => 0

end Lexeme

/-- What may stand between two tokens: a blank, or a comment with the end of its line. -/
inductive Filler where
  | blank (c : Char) (space : isSpace c = true)
  | comment (cs : List Char) (oneLine : '\n' ∉ cs)

namespace Filler

/-- What stands in the text. -/
def chars : Filler → List Char
  | .blank c _ => [c]
  | .comment cs _ => '#' :: cs ++ ['\n']

/-- How many lines end in it. -/
def newlines : Filler → ℕ
  | .blank c _ => newline c
  | .comment .. => 1

end Filler

/-- How many lines end in a gap. -/
def gapLines (gap : List Filler) : ℕ := (gap.map Filler.newlines).sum

/-- A text that writes tokens: each with the gap before it, and what follows the last one, where a
comment may stand that no line ends. Two words have a gap between them. -/
structure Written where
  parts : List (List Filler × Lexeme)
  tail : List Filler
  ending : Option {cs : List Char // '\n' ∉ cs}
  spaced : parts.IsChain fun a b => a.2.isWord = true → b.2.isWord = true → b.1 ≠ []

namespace Written

/-- What follows the last token. -/
def tailChars (w : Written) : List Char :=
  w.tail.flatMap Filler.chars ++ (w.ending.elim [] fun cs => '#' :: cs.1)

/-- The tokens that it writes. -/
def lexemes (w : Written) : List Lexeme := w.parts.map Prod.snd

/-- A token and the gap before it. -/
def partChars (part : List Filler × Lexeme) : List Char :=
  part.1.flatMap Filler.chars ++ part.2.chars

/-- The text. -/
def text (w : Written) : String := String.ofList (w.parts.flatMap partChars ++ w.tailChars)

/-- The tokens with the lines they end on, in a text that starts on a line. -/
def located (line : ℕ) : List (List Filler × Lexeme) → List Tok
  | [] => []
  | part :: parts =>
    let last := line + gapLines part.1 + part.2.newlines
    ⟨part.2.token.1, last, part.2.token.2⟩ :: located last parts

end Written

/-! ## Reading a written token back -/

theorem wordChar_iff {c : Char} :
    wordChar c = true ↔ isSpace c = false ∧ isPunct c = false ∧ c ≠ doubleQuote ∧ c ≠ '#' := by
  simp only [wordChar, Bool.and_eq_true, Bool.not_eq_true', bne_iff_ne, and_assoc]

/-- Punctuation is no blank, and neither opens a quoted word nor a comment. -/
theorem not_of_isPunct {c : Char} (h : isPunct c = true) :
    c ≠ '\n' ∧ isSpace c = false ∧ c ≠ '#' ∧ c ≠ doubleQuote := by
  simp only [isPunct, List.contains_iff_mem, List.mem_cons, List.not_mem_nil, or_false] at h
  rcases h with rfl | rfl | rfl | rfl | rfl | rfl | rfl <;> decide

/-- A closing quote ends a quoted word. -/
theorem readQuoted_quote (line : ℕ) (rest : List Char) :
    readQuoted line (doubleQuote :: rest) = ([], line, rest) := by
  rw [readQuoted.eq_def]
  exact if_pos rfl

/-- Behind a backslash, any character is one of the word. -/
theorem readQuoted_slash (line : ℕ) (d : Char) (ds : List Char) :
    readQuoted line ('\\' :: d :: ds) =
      (d :: (readQuoted (line + newline d) ds).1, (readQuoted (line + newline d) ds).2) := by
  rw [readQuoted.eq_def]
  exact (if_neg (by decide)).trans (if_pos rfl)

/-- So is any other character, but for the quote. -/
theorem readQuoted_plain (line : ℕ) {c : Char} (cs : List Char) (hquote : c ≠ doubleQuote)
    (hslash : c ≠ '\\') :
    readQuoted line (c :: cs) =
      (c :: (readQuoted (line + newline c) cs).1, (readQuoted (line + newline c) cs).2) := by
  rw [readQuoted.eq_def]
  exact (if_neg hquote).trans (if_neg hslash)

/-- A quoted word is read back, with the lines that end in it. -/
theorem readQuoted_escaped (line : ℕ) (cs : List (Bool × Char))
    (plain : ∀ p ∈ cs, p.1 = false → p.2 ≠ doubleQuote ∧ p.2 ≠ '\\') (rest : List Char) :
    readQuoted line (cs.flatMap Lexeme.escaped ++ doubleQuote :: rest) =
      (cs.map Prod.snd, line + (cs.map fun p => newline p.2).sum, rest) := by
  induction cs generalizing line with
  | nil => exact readQuoted_quote line rest
  | cons p cs ih =>
    obtain ⟨slash, c⟩ := p
    have htail := ih (line + newline c) fun p hp => plain p (List.mem_cons_of_mem _ hp)
    rw [Nat.add_assoc] at htail
    cases slash with
    | true =>
      simp only [List.flatMap_cons, Lexeme.escaped, if_true, List.cons_append, List.nil_append,
        readQuoted_slash, htail, List.map_cons, List.sum_cons]
    | false =>
      obtain ⟨hquote, hslash⟩ := plain (false, c) List.mem_cons_self rfl
      simp only [List.flatMap_cons, Lexeme.escaped, Bool.false_eq_true, if_false, List.cons_append,
        List.nil_append, readQuoted_plain line _ hquote hslash, htail, List.map_cons, List.sum_cons]

/-- A text does not go on with a character of a word. -/
def WordEnds (cs : List Char) : Prop := ∀ c ∈ cs.head?, wordChar c = false

/-- Nothing of a word is left where it ends. -/
theorem takeWhile_word {cs rest : List Char} (all : ∀ c ∈ cs, wordChar c = true)
    (h : WordEnds rest) : (cs ++ rest).takeWhile wordChar = cs ∧
      (cs ++ rest).dropWhile wordChar = rest := by
  rw [List.takeWhile_append_of_pos all, List.dropWhile_append_of_pos all]
  cases rest with
  | nil => exact ⟨by simp, rfl⟩
  | cons c rest =>
    have hc : wordChar c = false := h c rfl
    simp [hc]

/-- A token is read back from a text that writes it, with the line it ends on. -/
theorem scan_lexeme (line : ℕ) (l : Lexeme) {rest : List Char}
    (h : l.isWord = true → WordEnds rest) :
    (scan line (l.chars ++ rest)).1 =
      ⟨l.token.1, line + l.newlines, l.token.2⟩ :: (scan (line + l.newlines) rest).1 := by
  cases l with
  | word cs ne all =>
    obtain ⟨c, cs, rfl⟩ := List.exists_cons_of_ne_nil ne
    obtain ⟨hspace, hpunct, hquote, hhash⟩ := wordChar_iff.mp (all c List.mem_cons_self)
    have hline : c ≠ '\n' := by
      rintro rfl
      exact absurd hspace (by decide)
    obtain ⟨htake, hdrop⟩ := takeWhile_word (fun d hd => all d (List.mem_cons_of_mem _ hd)) (h rfl)
    simp only [Lexeme.chars, Lexeme.token, Lexeme.newlines, List.cons_append, Nat.add_zero]
    rw [scan, if_neg hline, if_neg (by simp [hspace]), if_neg hhash, if_neg hquote,
      if_neg (by simp [hpunct]), htake, hdrop]
  | sign c punct =>
    obtain ⟨hline, hspace, hhash, hquote⟩ := not_of_isPunct punct
    simp only [Lexeme.chars, Lexeme.token, Lexeme.newlines, List.cons_append, List.nil_append,
      Nat.add_zero]
    rw [scan, if_neg hline, if_neg (by simp [hspace]), if_neg hhash, if_neg hquote, if_pos punct]
  | quoted cs plain =>
    have hread := readQuoted_escaped line cs plain rest
    simp only [Lexeme.chars, Lexeme.token, Lexeme.newlines, List.cons_append, List.append_assoc,
      List.nil_append]
    rw [scan, if_neg (by decide), if_neg (by decide), if_neg (by decide), if_pos rfl, hread]

/-- What stands between two tokens gives no token. -/
theorem scan_filler (line : ℕ) (f : Filler) (rest : List Char) :
    (scan line (f.chars ++ rest)).1 = (scan (line + f.newlines) rest).1 := by
  cases f with
  | blank c space =>
    simp only [Filler.chars, Filler.newlines, List.cons_append, List.nil_append, newline]
    rw [scan]
    by_cases hline : c = '\n'
    · rw [if_pos hline, if_pos hline]
    · rw [if_neg hline, if_pos space, if_neg hline, Nat.add_zero]
  | comment cs oneLine =>
    have hdrop : (cs ++ '\n' :: rest).dropWhile (· ≠ '\n') = '\n' :: rest := by
      rw [List.dropWhile_append_of_pos fun c hc => by simpa using ne_of_mem_of_not_mem hc oneLine]
      rfl
    simp only [Filler.chars, Filler.newlines, List.cons_append, List.append_assoc, List.nil_append]
    rw [scan, if_neg (by decide), if_neg (by decide), if_pos rfl, hdrop, scan, if_pos rfl]

/-- A gap gives no token. -/
theorem scan_gap (line : ℕ) (gap : List Filler) (rest : List Char) :
    (scan line (gap.flatMap Filler.chars ++ rest)).1 = (scan (line + gapLines gap) rest).1 := by
  induction gap generalizing line with
  | nil => rfl
  | cons f gap ih =>
    rw [List.flatMap_cons, List.append_assoc, scan_filler, ih, gapLines, gapLines, List.map_cons,
      List.sum_cons, Nat.add_assoc]

/-- What follows the last token gives none. -/
theorem scan_tail (line : ℕ) (w : Written) : (scan line w.tailChars).1 = [] := by
  rw [Written.tailChars, scan_gap]
  cases w.ending with
  | none =>
    rw [Option.elim_none, scan]
  | some cs =>
    obtain ⟨cs, oneLine⟩ := cs
    have hdrop : cs.dropWhile (· ≠ '\n') = [] := by
      rw [List.dropWhile_eq_nil_iff]
      exact fun c hc => by simpa using ne_of_mem_of_not_mem hc oneLine
    simp only [Option.elim]
    rw [scan, if_neg (by decide), if_neg (by decide), if_pos rfl, hdrop,
      scan]

/-- A gap does not go on with a character of a word. -/
theorem wordEnds_filler (f : Filler) (rest : List Char) : WordEnds (f.chars ++ rest) := by
  cases f with
  | blank c space =>
    rintro _ ⟨⟩
    simp [wordChar, space]
  | comment cs oneLine =>
    rintro _ ⟨⟩
    decide

/-- Neither does what follows the last token. -/
theorem wordEnds_tail (w : Written) : WordEnds w.tailChars := by
  unfold Written.tailChars
  cases w.tail with
  | cons f gap =>
    rw [List.flatMap_cons, List.append_assoc]
    exact wordEnds_filler f _
  | nil =>
    cases w.ending with
    | none => exact nofun
    | some cs =>
      rintro _ ⟨⟩
      decide

/-- Nor what a token starts with that is no word. -/
theorem wordEnds_lexeme {l : Lexeme} (h : l.isWord = false) (rest : List Char) :
    WordEnds (l.chars ++ rest) := by
  cases l with
  | word => exact absurd h (by simp [Lexeme.isWord])
  | sign c punct =>
    rintro _ ⟨⟩
    simp [wordChar, punct]
  | quoted cs plain =>
    rintro _ ⟨⟩
    decide

/-- Where a word has to end, what is written next lets it. -/
theorem wordEnds_part {part : List Filler × Lexeme} (h : part.2.isWord = true → part.1 ≠ [])
    (rest : List Char) : WordEnds (Written.partChars part ++ rest) := by
  obtain ⟨gap, l⟩ := part
  cases gap with
  | cons f gap =>
    simp only [Written.partChars, List.flatMap_cons, List.append_assoc]
    exact wordEnds_filler f _
  | nil =>
    simp only [Written.partChars, List.flatMap_nil, List.nil_append]
    refine wordEnds_lexeme ?_ rest
    by_contra hword
    exact h (by simpa using hword) rfl

/-- The tokens of a text that writes them. -/
theorem scan_parts (w : Written) (line : ℕ) (parts : List (List Filler × Lexeme))
    (spaced : parts.IsChain fun a b => a.2.isWord = true → b.2.isWord = true → b.1 ≠ []) :
    (scan line (parts.flatMap Written.partChars ++ w.tailChars)).1 = Written.located line parts := by
  induction parts generalizing line with
  | nil => exact scan_tail line w
  | cons part parts ih =>
    have hends : part.2.isWord = true →
        WordEnds (parts.flatMap Written.partChars ++ w.tailChars) := by
      intro hword
      cases parts with
      | nil => exact wordEnds_tail w
      | cons next parts =>
        rw [List.flatMap_cons, List.append_assoc]
        exact wordEnds_part (spaced.rel hword) _
    have htail := ih (line + gapLines part.1 + part.2.newlines) spaced.tail
    rw [List.flatMap_cons, List.append_assoc, Written.partChars, List.append_assoc, scan_gap,
      scan_lexeme _ _ hends, htail, Written.located]

/-- A text that writes tokens is read back as these, each with the line it ends on. -/
theorem tokenize_text (w : Written) : (tokenize w.text).1 = Written.located 1 w.parts := by
  rw [tokenize, Written.text, String.toList_ofList]
  exact scan_parts w 1 w.parts w.spaced

/-- The tokens that a text writes. -/
theorem map_located (line : ℕ) (parts : List (List Filler × Lexeme)) :
    (Written.located line parts).map (fun t => (t.text, t.quoted)) =
      (parts.map Prod.snd).map Lexeme.token := by
  induction parts generalizing line with
  | nil => rfl
  | cons part parts ih => rw [Written.located, List.map_cons, ih, List.map_cons, List.map_cons]

end JenKea.Import
