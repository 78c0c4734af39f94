import JenKea.Import.Statements

/-!
# A statement tree, written and read back

A tree of statements is written as the tokens of its heads with the marks between them, and these in
any text that writes them. `tokenize` and `parse_statements` read the tree back from it and warn of
nothing. Of any other list of tokens they account for every one.
-/

namespace JenKea.Import

/-! ## Trees -/

namespace Lexeme

/-- It stands between statements. -/
def isMark : Lexeme → Bool
  | .sign c _ => c == ';' || c == '{' || c == '}'
  | _ => false

/-- The end of a statement. -/
def semi : Lexeme := .sign ';' rfl

/-- The start of a block. -/
def opening : Lexeme := .sign '{' rfl

/-- The end of a block. -/
def closing : Lexeme := .sign '}' rfl

end Lexeme

/-- A token that can stand in a head. -/
abbrev Word := {l : Lexeme // l.isMark = false}

/-- A statement: one with a head that a `;` ends, or a block, whose head may be missing. -/
inductive Tree where
  | stmt (first : Word) (rest : List Word)
  | block (head : List Word) (body : List Tree)

/-- The texts of a head, and which of them are quoted. -/
def headWords (head : List Word) : List (String × Bool) := head.map fun w => w.1.token

theorem headWords_eq (head : List Word) :
    headWords head = (head.map Subtype.val).map Lexeme.token := by
  rw [headWords, List.map_map]
  rfl

mutual

/-- The tokens that a statement is written as. -/
def Tree.lexemes : Tree → List Lexeme
  | .stmt first rest => (first :: rest).map Subtype.val ++ [.semi]
  | .block head body => head.map Subtype.val ++ .opening :: lexemesOf body ++ [.closing]

/-- The tokens that the statements of a list are written as. -/
def lexemesOf : List Tree → List Lexeme
  | [] => []
  | tree :: trees => tree.lexemes ++ lexemesOf trees

end

mutual

/-- The words of a statement and of its block. The parser gives a block without a head an empty word. -/
def Tree.outline : Tree → Outline
  | .stmt first rest => .mk (headWords (first :: rest)) none
  | .block head body =>
    .mk (if head = [] then [("", false)] else headWords head) (some (treeOutlines body))

/-- The words of the statements of a list. -/
def treeOutlines : List Tree → List Outline
  | [] => []
  | tree :: trees => tree.outline :: treeOutlines trees

end

mutual

/-- How deep the blocks of a statement nest. -/
def Tree.depth : Tree → ℕ
  | .stmt .. => 0
  | .block _ body => depths body + 1

/-- How deep the blocks of a list nest. -/
def depths : List Tree → ℕ
  | [] => 0
  | tree :: trees => max tree.depth (depths trees)

end

/-! ## The tokens of a tree -/

/-- The tokens are these, on whatever lines. -/
def Spells (toks : List Tok) (ls : List Lexeme) : Prop :=
  toks.map (fun t => (t.text, t.quoted)) = ls.map Lexeme.token

/-- A token is no mark whose text is none. -/
theorem isMark_of_toList {t : Tok} (hsemi : t.text.toList ≠ [';']) (hopen : t.text.toList ≠ ['{'])
    (hclose : t.text.toList ≠ ['}']) : t.isMark = false := by
  have hne (text : String) (h : t.text.toList ≠ text.toList) : (t.text == text) = false := by
    rw [beq_eq_false_iff_ne]
    exact fun heq => h (congrArg String.toList heq)
  simp only [Tok.isMark, Tok.isSemi, Tok.isOpen, Tok.isClose, hne ";" hsemi, hne "\x7b" hopen,
    hne "\x7d" hclose]
  rfl

/-- A token that spells a word is no mark. -/
theorem isMark_of_word {t : Tok} {w : Word} (h : (t.text, t.quoted) = w.1.token) :
    t.isMark = false := by
  obtain ⟨l, hmark⟩ := w
  obtain ⟨htext, hquoted⟩ := Prod.mk.inj h
  cases l with
  | quoted cs plain =>
    have hquotes : t.quoted = true := hquoted
    simp [Tok.isMark, Tok.isSemi, Tok.isOpen, Tok.isClose, hquotes]
  | sign c punct =>
    have hlist : t.text.toList = [c] := by
      rw [htext]
      exact String.toList_singleton c
    simp only [Lexeme.isMark, Bool.or_eq_false_iff, beq_eq_false_iff_ne] at hmark
    refine isMark_of_toList ?_ ?_ ?_ <;> rw [hlist] <;> simp [hmark]
  | word cs ne all =>
    have hlist : t.text.toList = cs := by
      rw [htext]
      exact String.toList_ofList
    have hnot {c : Char} (hc : wordChar c = false) : t.text.toList ≠ [c] := by
      rintro hsingle
      rw [hlist] at hsingle
      exact absurd (all c (hsingle ▸ List.mem_singleton_self c)) (by simp [hc])
    exact isMark_of_toList (hnot (by decide)) (hnot (by decide)) (hnot (by decide))

/-- A mark is read off the tokens that spell it. -/
theorem spells_mark {toks : List Tok} {c : Char} {punct : isPunct c = true} (h : Spells toks [.sign c punct]) :
    ∃ t : Tok, toks = [t] ∧ t.text = String.singleton c ∧ t.quoted = false := by
  obtain ⟨t, rfl, ht⟩ := List.map_eq_singleton_iff.mp h
  exact ⟨t, rfl, (Prod.mk.inj ht).1, (Prod.mk.inj ht).2⟩

/-- The tokens of a head go into the head. -/
theorem run_head {limit : ℕ} {s : Parser} {toks : List Tok} {head : List Word}
    (h : Spells toks (head.map Subtype.val)) :
    toks.foldlM (Parser.step limit) s = some { s with head := s.head ++ toks } := by
  induction toks generalizing s head with
  | nil =>
    rw [List.append_nil]
    rfl
  | cons t toks ih =>
    cases head with
    | nil => cases h
    | cons w head =>
      obtain ⟨hword, hrest⟩ := List.cons.inj h
      have hmark := isMark_of_word hword
      have hstep : Parser.step limit s t = some { s with head := s.head ++ [t] } := by
        simp only [Tok.isMark, Bool.or_eq_false_iff] at hmark
        rw [Parser.step, if_neg (by simp [hmark]), if_neg (by simp [hmark]), if_neg (by simp [hmark])]
      rw [List.foldlM_cons, hstep, Option.bind_eq_bind, Option.bind_some, ih hrest]
      simp only [List.append_assoc, List.singleton_append]

/-- One run after another. -/
theorem run_append {limit : ℕ} {s s' s'' : Parser} {toks toks' : List Tok}
    (h : toks.foldlM (Parser.step limit) s = some s')
    (h' : toks'.foldlM (Parser.step limit) s' = some s'') :
    (toks ++ toks').foldlM (Parser.step limit) s = some s'' := by
  rw [List.foldlM_append, h]
  exact h'

/-- A step and a run after it. -/
theorem run_cons {limit : ℕ} {s s' s'' : Parser} {t : Tok} {toks : List Tok}
    (h : Parser.step limit s t = some s') (h' : toks.foldlM (Parser.step limit) s' = some s'') :
    (t :: toks).foldlM (Parser.step limit) s = some s'' := by
  rw [List.foldlM_cons, h]
  exact h'

mutual

/-- The tokens of a statement are read back as it. -/
theorem run_tree (limit : ℕ) (tree : Tree) {s : Parser} {toks : List Tok} (hhead : s.head = [])
    (hdeep : s.waiting.length + tree.depth ≤ limit) (h : Spells toks tree.lexemes) :
    ∃ st : Stmt, toks.foldlM (Parser.step limit) s = some { s with out := s.out ++ [st] } ∧
      st.outline = tree.outline := by
  cases tree with
  | stmt first rest =>
    rw [Tree.lexemes, Spells, List.map_append, List.map_eq_append_iff] at h
    obtain ⟨words, last, rfl, hwords, hlast⟩ := h
    obtain ⟨t, rfl, htext, hquoted⟩ := spells_mark hlast
    have hne : words ≠ [] := by
      rintro rfl
      cases hwords
    have hsemi : t.isSemi = true := by
      rw [Tok.isSemi, htext, hquoted]
      decide
    obtain ⟨u, us, rfl⟩ := List.exists_cons_of_ne_nil hne
    refine ⟨.mk (u :: us) none u.line, ?_, ?_⟩
    · have hend : Parser.step limit { s with head := u :: us } t =
          some { s with out := s.out ++ [.mk (u :: us) none u.line] } := by
        rw [Parser.step, if_pos hsemi, hhead]
        rfl
      have hstart : (u :: us).foldlM (Parser.step limit) s = some { s with head := u :: us } := by
        rw [run_head hwords, hhead]
        rfl
      exact run_append hstart (run_cons hend rfl)
    · rw [Stmt.outline, Tree.outline, hwords, headWords_eq]
  | block head body =>
    rw [Tree.depth] at hdeep
    rw [Tree.lexemes, Spells, List.map_append, List.map_eq_append_iff] at h
    obtain ⟨start, last, rfl, hstart, hlast⟩ := h
    rw [List.map_append, List.map_eq_append_iff] at hstart
    obtain ⟨words, inside, rfl, hwords, hinside⟩ := hstart
    rw [List.map_cons, List.map_eq_cons_iff] at hinside
    obtain ⟨o, inner, rfl, ho, hinner⟩ := hinside
    obtain ⟨t, rfl, htext, hquoted⟩ := spells_mark hlast
    have hopen : o.isSemi = false ∧ o.isOpen = true := by
      obtain ⟨htext, hquoted⟩ := Prod.mk.inj ho
      rw [Tok.isSemi, Tok.isOpen, htext, hquoted]
      decide
    have hclose : t.isSemi = false ∧ t.isOpen = false ∧ t.isClose = true := by
      rw [Tok.isSemi, Tok.isOpen, Tok.isClose, htext, hquoted]
      decide
    -- the call that waits at the brace, and what it is left with
    let s' : Parser := { s with head := words }
    obtain ⟨sts, hrun, hsts⟩ := run_trees limit body
      (s := { s' with waiting := s'.suspend o :: s.waiting, out := [], head := [] }) rfl
      (by simp only [List.length_cons]; omega) hinner
    refine ⟨.mk (s'.suspend o).title (some sts) (s'.suspend o).line, ?_, ?_⟩
    · have hstart : Parser.step limit s' o =
          some { s' with waiting := s'.suspend o :: s.waiting, out := [], head := [] } := by
        have hlimit : s'.waiting.length < limit := by
          show s.waiting.length < limit
          omega
        rw [Parser.step, if_neg (by simp [hopen]), if_pos hopen.2, if_pos hlimit]
      have hend : Parser.step limit
          { s' with waiting := s'.suspend o :: s.waiting, out := sts, head := [] } t =
            some { s with out := s.out ++
              [.mk (s'.suspend o).title (some sts) (s'.suspend o).line] } := by
        rw [Parser.step, if_neg (by simp [hclose]), if_neg (by simp [hclose]), if_pos hclose.2.2]
        simp only [warned, List.append_nil, hhead]
        rfl
      have hwords : words.foldlM (Parser.step limit) s = some s' := by
        rw [run_head hwords, hhead]
        rfl
      exact run_append (run_append hwords (run_cons hstart hrun)) (run_cons hend rfl)
    · have htitle : (s'.suspend o).title.map (fun t => (t.text, t.quoted)) =
          if head = [] then [("", false)] else headWords head := by
        rw [Call.title, headWords_eq, ← hwords]
        show List.map _ (if words = [] then _ else words) = _
        have hnil : words = [] ↔ head = [] := by
          rw [← List.map_eq_nil_iff, hwords, List.map_eq_nil_iff, List.map_eq_nil_iff]
        by_cases hwords' : words = []
        · rw [if_pos hwords', if_pos (hnil.mp hwords')]
          rfl
        · rw [if_neg hwords', if_neg fun h => hwords' (hnil.mpr h)]
      rw [Stmt.outline, Tree.outline, htitle, hsts]

/-- The tokens of a list of statements are read back as these. -/
theorem run_trees (limit : ℕ) (trees : List Tree) {s : Parser} {toks : List Tok} (hhead : s.head = [])
    (hdeep : s.waiting.length + depths trees ≤ limit) (h : Spells toks (lexemesOf trees)) :
    ∃ sts : List Stmt, toks.foldlM (Parser.step limit) s = some { s with out := s.out ++ sts } ∧
      outlines sts = treeOutlines trees := by
  cases trees with
  | nil =>
    refine ⟨[], ?_, rfl⟩
    rw [List.map_eq_nil_iff.mp h, List.append_nil]
    rfl
  | cons tree trees =>
    rw [depths] at hdeep
    rw [lexemesOf, Spells, List.map_append, List.map_eq_append_iff] at h
    obtain ⟨first, rest, rfl, hfirst, hrest⟩ := h
    obtain ⟨st, hrun, hst⟩ := run_tree limit tree hhead (by omega) hfirst
    obtain ⟨sts, hruns, hsts⟩ := run_trees limit trees (s := { s with out := s.out ++ [st] }) hhead
      (by dsimp only; omega) hrest
    refine ⟨st :: sts, ?_, ?_⟩
    · rw [run_append hrun hruns]
      simp only [List.append_assoc, List.singleton_append]
    · rw [outlines, hst, hsts, treeOutlines]

end

/-- Every tree can be written: with a blank before each token, for one. -/
theorem exists_written (trees : List Tree) : ∃ w : Written, w.lexemes = lexemesOf trees := by
  let parts := (lexemesOf trees).map fun l => ([Filler.blank ' ' rfl], l)
  have hspaced : parts.IsChain fun a b => a.2.isWord = true → b.2.isWord = true → b.1 ≠ [] := by
    refine List.IsChain.imp (R := fun _ b => b.1 ≠ []) (fun _ _ h _ _ => h) ?_
    rw [List.isChain_iff_getElem]
    intro i hi
    simp [parts]
  refine ⟨⟨parts, [], none, hspaced⟩, ?_⟩
  rw [Written.lexemes, List.map_map]
  exact List.map_id _

/-- A tree whose blocks nest no deeper than the interpreter lets `block` call itself is read back from
any text that writes it, word for word and without a warning. Of every other list of tokens that nests no
deeper, each token is in the tree or in a warning, but for a `;` with nothing to end; one that nests
deeper ends in a `RecursionError`. -/
theorem written_read_back (limit : ℕ) :
    (∀ (trees : List Tree) (w : Written), w.lexemes = lexemesOf trees → depths trees ≤ limit →
      (tokenize w.text).1 = Written.located 1 w.parts ∧
      ∃ sts, parseStatements limit (tokenize w.text).1 = some (sts, []) ∧
        outlines sts = treeOutlines trees) ∧
    ∀ toks : List Tok,
      (Parser.deepest 0 toks ≤ limit → ∃ sts reports,
        parseStatements limit toks = some (sts, reports) ∧ Accounted toks sts reports) ∧
      (limit < Parser.deepest 0 toks → parseStatements limit toks = none) := by
  refine ⟨?_, fun toks => ⟨parseStatements_accounted, parseStatements_eq_none⟩⟩
  intro trees w hw hdeep
  have htokens := tokenize_text w
  have hspells : Spells (tokenize w.text).1 (lexemesOf trees) := by
    rw [htokens, Spells, map_located, ← hw]
    rfl
  have hdepth : ({} : Parser).waiting.length + depths trees ≤ limit := by
    simpa using hdeep
  obtain ⟨sts, hrun, hsts⟩ := run_trees limit trees rfl hdepth hspells
  refine ⟨htokens, sts, ?_, hsts⟩
  rw [parseStatements, hrun]
  rfl

/-- A class with a quoted name, a statement, and a block without a head. -/
def sampleTrees : List Tree :=
  [.block [⟨.word ['c'] (by decide) (List.all_eq_true.mp rfl), rfl⟩,
      ⟨.quoted [(false, 'q'), (true, Text.doubleQuote)] (by simp [Text.doubleQuote]), rfl⟩]
    [.stmt ⟨.word ['a'] (by decide) (List.all_eq_true.mp rfl), rfl⟩ [], .block [] []]]

/-- The tree, with a comment behind the first word. -/
def sampleWritten : Written where
  parts :=
    [([], .word ['c'] (by decide) (List.all_eq_true.mp rfl)),
     ([.comment [' ', 'x'] (by simp)],
        .quoted [(false, 'q'), (true, Text.doubleQuote)] (by simp [Text.doubleQuote])),
     ([], .opening), ([], .word ['a'] (by decide) (List.all_eq_true.mp rfl)), ([], .semi), ([], .opening),
     ([], .closing), ([], .closing)]
  tail := []
  ending := none
  spaced := by simp [Lexeme.isWord, Lexeme.opening, Lexeme.semi, Lexeme.closing]

/-- The tree is read back, and of a word before a `}` that closes nothing there is a warning. -/
theorem written_read_back_sample :
    (∃ sts, parseStatements 2 (tokenize sampleWritten.text).1 = some (sts, []) ∧
      outlines sts = treeOutlines sampleTrees) ∧
    ∃ sts reports, parseStatements 2 [⟨"a", 1, false⟩, ⟨"\x7d", 1, false⟩] = some (sts, reports) ∧
      Accounted [⟨"a", 1, false⟩, ⟨"\x7d", 1, false⟩] sts reports :=
  ⟨((written_read_back 2).1 sampleTrees sampleWritten rfl (by decide)).2,
    ((written_read_back 2).2 _).1 (by decide)⟩

/-- A `;` with nothing to end is in no statement and in no warning, and of a thousand blocks inside one
another the parse ends in a `RecursionError`, where the interpreter stops at a thousand calls. -/
theorem lone_semi_dropped :
    (tokenize ";").1 = [⟨";", 1, false⟩] ∧
    parseStatements 1000 [⟨";", 1, false⟩] = some ([], []) ∧
    parseStatements 1000 (List.replicate 1001 ⟨"\x7b", 1, false⟩) = none := by
  refine ⟨by decide +kernel, rfl, parseStatements_eq_none ?_⟩
  have hdeep (depth n : ℕ) :
      Parser.deepest depth (List.replicate n ⟨"\x7b", 1, false⟩) = depth + n := by
    induction n generalizing depth with
    | zero => rfl
    | succ n ih =>
      rw [List.replicate_succ, Parser.deepest, if_pos (by decide), ih]
      omega
  rw [hdeep]
  decide

end JenKea.Import
