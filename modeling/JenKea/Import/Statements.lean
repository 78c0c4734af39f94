import JenKea.Import.Tokens

/-!
# The statements of a `dhcpd.conf`

`parse_statements` of `jen/services/isc_dhcp_import.py`. Its inner function `block` calls itself at every
`{`; here the calls that wait for one they made are a list, the innermost first. The interpreter lets
`block` call itself only so deep: `limit`, beyond which the parse ends in a `RecursionError`.
-/

namespace JenKea.Import

/-! ## The parser -/

namespace Tok

/-- It ends a statement. -/
def isSemi (t : Tok) : Bool := t.text == ";" && !t.quoted

/-- It opens a block. -/
def isOpen (t : Tok) : Bool := t.text == "\x7b" && !t.quoted

/-- It closes a block. -/
def isClose (t : Tok) : Bool := t.text == "\x7d" && !t.quoted

/-- It stands between statements and belongs to the head of none. -/
def isMark (t : Tok) : Bool := t.isSemi || t.isOpen || t.isClose

end Tok

/-- The three marks exclude each other. -/
theorem Tok.mark_cases (t : Tok) :
    (t.isSemi = false ∧ t.isOpen = false ∧ t.isClose = false) ∨
    (t.isSemi = true ∧ t.isOpen = false ∧ t.isClose = false) ∨
    (t.isSemi = false ∧ t.isOpen = true ∧ t.isClose = false) ∨
    (t.isSemi = false ∧ t.isOpen = false ∧ t.isClose = true) := by
  simp only [Tok.isSemi, Tok.isOpen, Tok.isClose]
  by_cases hsemi : t.text = ";"
  · cases t.quoted <;> simp [hsemi]
  by_cases hopen : t.text = "\x7b"
  · cases t.quoted <;> simp [hopen]
  by_cases hclose : t.text = "\x7d"
  · cases t.quoted <;> simp [hclose]
  exact .inl ⟨by simp [hsemi], by simp [hopen], by simp [hclose]⟩

/-- A warning of the parser, with the tokens of the statement that it is about. -/
inductive Report where
  | noEnd (first : Tok) (rest : List Tok)
  | unexpected (brace : Tok)
  | unterminated (first : Tok) (rest : List Tok)
  | unclosed
  deriving DecidableEq

namespace Report

/-- The line of `warnings`. -/
def text : Report → String
  | .noEnd first _ => s!"line {first.line}: statement without a terminating ';' — ignored"
  | .unexpected brace => s!"line {brace.line}: unexpected '\x7d' — ignored"
  | .unterminated first _ => s!"line {first.line}: unterminated statement at end of file — ignored"
  | .unclosed => "end of file: a '\x7b' block was never closed"

/-- It is about a `}` that closes nothing. -/
def isUnexpected : Report → Bool
  | .unexpected _ => true
  | _ => false

/-- The tokens of the statement. -/
def head : Report → List Tok
  | .noEnd first rest => first :: rest
  | .unterminated first rest => first :: rest
  | _ => []

end Report

/-- The warning about a statement, where there is one. -/
def warned (warning : Tok → List Tok → Report) : List Tok → List Report
  | [] => []
  | first :: rest => [warning first rest]

/-- A call of `block` that waits for the one it made at a `{`. -/
structure Call where
  out : List Stmt
  head : List Tok
  line : ℕ

/-- `head or [Tok("", line)]`. -/
def Call.title (c : Call) : List Tok := if c.head = [] then [⟨"", c.line, false⟩] else c.head

/-- The statements of a call once the block that it waits for is there. -/
def Call.resume (c : Call) (body : List Stmt) : List Stmt :=
  c.out ++ [.mk c.title (some body) c.line]

/-- Where `parse_statements` stands between two tokens. -/
structure Parser where
  waiting : List Call := []
  out : List Stmt := []
  head : List Tok := []
  reports : List Report := []

namespace Parser

/-- A statement ended by a `;`, where there is one. -/
def ended : List Tok → List Stmt
  | [] => []
  | first :: rest => [.mk (first :: rest) none first.line]

/-- The call that waits at a `{`. -/
def suspend (s : Parser) (t : Tok) : Call :=
  ⟨s.out, s.head, (s.head.headD t).line⟩

/-- One token. `none` is a `RecursionError`. -/
def step (limit : ℕ) (s : Parser) (t : Tok) : Option Parser :=
  if t.isSemi then
    some { s with out := s.out ++ ended s.head, head := [] }
  else if t.isOpen then
    if s.waiting.length < limit then
      some { s with waiting := s.suspend t :: s.waiting, out := [], head := [] }
    else none
  else if t.isClose then
    let reports := s.reports ++ warned .noEnd s.head
    match s.waiting with
    -- the head is not emptied here: what follows is read as more of it
    | [] => some { s with reports := reports ++ [.unexpected t] }
    | c :: waiting => some ⟨waiting, c.resume s.out, [], reports⟩
  else some { s with head := s.head ++ [t] }

/-- The end of the file: every call that waits gets the block that it waits for. -/
def close : List Call → List Stmt → List Stmt × List Report
  | [], out => (out, [])
  | c :: waiting, out =>
    let rest := close waiting (c.resume out)
    (rest.1, .unclosed :: rest.2)

/-- The statements and the warnings, at the end of the file. -/
def finish (s : Parser) : List Stmt × List Report :=
  let closed := close s.waiting s.out
  (closed.1, s.reports ++ warned .unterminated s.head ++ closed.2)

end Parser

/-- `parse_statements`. -/
def parseStatements (limit : ℕ) (toks : List Tok) : Option (List Stmt × List Report) :=
  (toks.foldlM (Parser.step limit) {}).map Parser.finish

/-! ## What a tree is made of -/

mutual

/-- The heads of a statement and of the statements in its block, each with whether it has a block. -/
def Stmt.nodes : Stmt → List (List Tok × Bool)
  | .mk head none _ => [(head, false)]
  | .mk head (some body) _ => (head, true) :: nodesOf body

/-- The heads of the statements of a list. -/
def nodesOf : List Stmt → List (List Tok × Bool)
  | [] => []
  | st :: sts => st.nodes ++ nodesOf sts

end

/-- The statements of a list, as they are read back: their words, and their blocks. -/
inductive Outline where
  | mk (head : List (String × Bool)) (body : Option (List Outline))

mutual

/-- The words of a statement and of its block. -/
def Stmt.outline : Stmt → Outline
  | .mk head none _ => .mk (head.map fun t => (t.text, t.quoted)) none
  | .mk head (some body) _ => .mk (head.map fun t => (t.text, t.quoted)) (some (outlines body))

/-- The words of the statements of a list. -/
def outlines : List Stmt → List Outline
  | [] => []
  | st :: sts => st.outline :: outlines sts

end

theorem nodesOf_append (sts sts' : List Stmt) : nodesOf (sts ++ sts') = nodesOf sts ++ nodesOf sts' := by
  induction sts with
  | nil => rfl
  | cons st sts ih => rw [List.cons_append, nodesOf, ih, nodesOf, List.append_assoc]

theorem outlines_append (sts sts' : List Stmt) :
    outlines (sts ++ sts') = outlines sts ++ outlines sts' := by
  induction sts with
  | nil => rfl
  | cons st sts ih => rw [List.cons_append, outlines, ih, outlines, List.cons_append]

/-! ## What a token does -/

namespace Parser

/-- What a token does to the parser. -/
theorem step_cases {limit : ℕ} {s s' : Parser} {t : Tok} (h : step limit s t = some s') :
    (t.isSemi = true ∧ s' = { s with out := s.out ++ ended s.head, head := [] }) ∨
    (t.isOpen = true ∧ s.waiting.length < limit ∧
      s' = { s with waiting := s.suspend t :: s.waiting, out := [], head := [] }) ∨
    (t.isClose = true ∧ s.waiting = [] ∧
      s' = { s with reports := s.reports ++ warned .noEnd s.head ++ [.unexpected t] }) ∨
    (t.isClose = true ∧ ∃ c waiting, s.waiting = c :: waiting ∧
      s' = ⟨waiting, c.resume s.out, [], s.reports ++ warned .noEnd s.head⟩) ∨
    (t.isMark = false ∧ s' = { s with head := s.head ++ [t] }) := by
  unfold step at h
  split_ifs at h with hsemi hopen hlimit hclose
  · exact .inl ⟨hsemi, (Option.some.inj h).symm⟩
  · exact .inr (.inl ⟨hopen, hlimit, (Option.some.inj h).symm⟩)
  · cases hwaiting : s.waiting with
    | nil =>
      rw [hwaiting] at h
      exact .inr (.inr (.inl ⟨hclose, rfl, (Option.some.inj h).symm⟩))
    | cons c waiting =>
      rw [hwaiting] at h
      exact .inr (.inr (.inr (.inl ⟨hclose, c, waiting, rfl, (Option.some.inj h).symm⟩)))
  · refine .inr (.inr (.inr (.inr ⟨?_, (Option.some.inj h).symm⟩)))
    simp [Tok.isMark, hsemi, hopen, hclose]

/-- Only a call of `block` too deep ends the run. -/
theorem step_eq_none {limit : ℕ} {s : Parser} {t : Tok} (h : step limit s t = none) :
    t.isOpen = true ∧ limit ≤ s.waiting.length := by
  unfold step at h
  split_ifs at h with hsemi hopen hlimit hclose
  · exact ⟨hopen, Nat.le_of_not_lt hlimit⟩
  · cases hwaiting : s.waiting with
    | nil =>
      rw [hwaiting] at h
      cases h
    | cons c waiting =>
      rw [hwaiting] at h
      cases h

/-! ## What becomes of a token -/

/-- How many `;` stand right behind a token that is no mark; `after` tells whether such a token stands
before the first. -/
def endedWords (after : Bool) : List Tok → ℕ
  | [] => 0
  | t :: toks => (if after && t.isSemi then 1 else 0) + endedWords (!t.isMark) toks

/-- How deep blocks nest in a text. -/
def deepest (depth : ℕ) : List Tok → ℕ
  | [] => depth
  | t :: toks =>
    if t.isOpen then deepest (depth + 1) toks
    else if t.isClose then max depth (deepest (depth - 1) toks)
    else deepest depth toks

theorem le_deepest (depth : ℕ) (toks : List Tok) : depth ≤ deepest depth toks := by
  induction toks generalizing depth with
  | nil => exact le_rfl
  | cons t toks ih =>
    rw [deepest]
    split_ifs
    · exact (Nat.le_succ depth).trans (ih _)
    · exact le_max_left _ _
    · exact ih _

/-- The heads that the waiting calls hold. -/
def waitingNodes : List Call → List (List Tok × Bool)
  | [] => []
  | c :: waiting => waitingNodes waiting ++ nodesOf c.out ++ [(c.title, true)]

/-- The heads of the tree so far. -/
def nodes (s : Parser) : List (List Tok × Bool) := waitingNodes s.waiting ++ nodesOf s.out

/-- The tokens of the tree so far, of the statement being read, and of the warnings. -/
def tokens (s : Parser) : List Tok :=
  s.nodes.flatMap Prod.fst ++ s.head ++ s.reports.flatMap Report.head

/-- A call that goes on keeps its heads and those of the block. -/
theorem nodes_resume (c : Call) (waiting : List Call) (body : List Stmt) :
    waitingNodes waiting ++ nodesOf (c.resume body) =
      waitingNodes (c :: waiting) ++ nodesOf body := by
  simp only [Call.resume, nodesOf_append, nodesOf, Stmt.nodes, waitingNodes, List.append_assoc,
    List.append_nil, List.cons_append, List.nil_append]

/-- The end of the file keeps every head, and warns of every call that waits. -/
theorem close_eq (waiting : List Call) (out : List Stmt) :
    nodesOf (close waiting out).1 = waitingNodes waiting ++ nodesOf out ∧
      (close waiting out).2 = List.replicate waiting.length .unclosed := by
  induction waiting generalizing out with
  | nil => exact ⟨rfl, rfl⟩
  | cons c waiting ih =>
    obtain ⟨hnodes, hreports⟩ := ih (c.resume out)
    refine ⟨?_, ?_⟩
    · show nodesOf (close waiting (c.resume out)).1 = _
      rw [hnodes, nodes_resume]
    · show Report.unclosed :: (close waiting (c.resume out)).2 = _
      rw [hreports]
      rfl

/-- A statement that ends is the head that it ends with. -/
theorem flatMap_ended (head : List Tok) : (nodesOf (ended head)).flatMap Prod.fst = head := by
  cases head with
  | nil => rfl
  | cons first rest => simp [ended, nodesOf, Stmt.nodes]

/-- A warning about a statement has its tokens. -/
theorem flatMap_warned (warning : Tok → List Tok → Report)
    (h : ∀ first rest, (warning first rest).head = first :: rest) (head : List Tok) :
    (warned warning head).flatMap Report.head = head := by
  cases head with
  | nil => rfl
  | cons first rest => simp [warned, h]

/-- A token that is no mark is kept, and none is lost. -/
theorem count_step {limit : ℕ} {s s' : Parser} {t : Tok} (h : step limit s t = some s') (x : Tok) :
    s.tokens.count x + ([t].filter fun u => !u.isMark).count x ≤ s'.tokens.count x := by
  have hmark : t.isMark = true → ([t].filter fun u => !u.isMark).count x = 0 := by
    intro hmark
    simp [hmark]
  rcases step_cases h with ⟨hsemi, rfl⟩ | ⟨hopen, -, rfl⟩ | ⟨hclose, hwaiting, rfl⟩ |
    ⟨hclose, c, waiting, hwaiting, rfl⟩ | ⟨hnone, rfl⟩
  · rw [hmark (by simp [Tok.isMark, hsemi])]
    simp only [tokens, nodes, nodesOf_append, List.flatMap_append, flatMap_ended, List.count_append,
      List.count_nil]
    omega
  · rw [hmark (by simp [Tok.isMark, hopen])]
    have htitle : s.head.count x ≤ (s.suspend t).title.count x := by
      unfold Call.title suspend
      split_ifs with hnil
      · simp only at hnil
        simp [hnil]
      · exact le_rfl
    have hout : (s.suspend t).out = s.out := rfl
    simp only [tokens, nodes, waitingNodes, hout, nodesOf, List.flatMap_append, List.flatMap_cons,
      List.flatMap_nil, List.count_append, List.append_nil]
    omega
  · rw [hmark (by simp [Tok.isMark, hclose])]
    simp only [tokens, nodes, List.flatMap_append, List.count_append]
    omega
  · rw [hmark (by simp [Tok.isMark, hclose])]
    have hwarned := flatMap_warned Report.noEnd (fun _ _ => rfl) s.head
    simp only [tokens, nodes, nodes_resume, hwaiting, List.flatMap_append, hwarned,
      List.count_append, List.count_nil]
    omega
  · simp only [tokens, nodes, hnone, List.count_append, List.filter_cons, List.filter_nil,
      Bool.not_false, if_true]
    omega

/-- Over a run, too, none is lost. -/
theorem count_run {limit : ℕ} {toks : List Tok} {s s' : Parser}
    (h : toks.foldlM (step limit) s = some s') (x : Tok) :
    s.tokens.count x + (toks.filter fun t => !t.isMark).count x ≤ s'.tokens.count x := by
  induction toks generalizing s with
  | nil =>
    cases h
    simp
  | cons t toks ih =>
    rw [List.foldlM_cons, Option.bind_eq_bind, Option.bind_eq_some_iff] at h
    obtain ⟨next, hstep, hrun⟩ := h
    have hone := count_step hstep x
    have hrest := ih hrun
    have hsplit : (t :: toks).filter (fun u => !u.isMark) =
        [t].filter (fun u => !u.isMark) ++ toks.filter fun u => !u.isMark := by
      rw [← List.filter_append, List.singleton_append]
    rw [hsplit, List.count_append]
    omega

/-! ## What becomes of the marks -/

/-- The blocks of a tree. -/
def blocks (nodes : List (List Tok × Bool)) : ℕ := nodes.countP fun node => node.2

/-- The statements of a tree that have no block. -/
def plain (nodes : List (List Tok × Bool)) : ℕ := nodes.countP fun node => !node.2

@[simp] theorem blocks_append (ns ns' : List (List Tok × Bool)) :
    blocks (ns ++ ns') = blocks ns + blocks ns' := List.countP_append

@[simp] theorem plain_append (ns ns' : List (List Tok × Bool)) :
    plain (ns ++ ns') = plain ns + plain ns' := List.countP_append

/-- How many warnings are about a `}` that closes nothing. -/
def strays (reports : List Report) : ℕ := reports.countP Report.isUnexpected

@[simp] theorem strays_append (rs rs' : List Report) :
    strays (rs ++ rs') = strays rs + strays rs' := List.countP_append

/-- A warning about a statement is about no `}`. -/
theorem strays_warned (head : List Tok) : strays (warned .noEnd head) = 0 := by
  cases head <;> rfl

/-- A statement that ends has no block. -/
theorem blocks_ended (head : List Tok) : blocks (nodesOf (ended head)) = 0 := by
  cases head <;> rfl

/-- What ends is one statement, unless nothing stands before the `;`. -/
theorem plain_ended (head : List Tok) :
    plain (nodesOf (ended head)) = if head = [] then 0 else 1 := by
  cases head <;> rfl

/-- What a token does to the number of blocks, of waiting calls and of statements. -/
theorem marks_step {limit : ℕ} {s s' : Parser} {t : Tok} (h : step limit s t = some s') :
    blocks s'.nodes = blocks s.nodes + [t].countP Tok.isOpen ∧
    s'.waiting.length + [t].countP Tok.isClose + strays s.reports =
      s.waiting.length + [t].countP Tok.isOpen + strays s'.reports ∧
    plain s'.nodes =
      plain s.nodes + (if t.isSemi = true ∧ s.head ≠ [] then 1 else 0) := by
  have hmarks := t.mark_cases
  rcases step_cases h with ⟨hsemi, rfl⟩ | ⟨hopen, -, rfl⟩ | ⟨hclose, hwaiting, rfl⟩ |
    ⟨hclose, c, waiting, hwaiting, rfl⟩ | ⟨hnone, rfl⟩
  · have hopen : t.isOpen = false := by grind
    have hclose : t.isClose = false := by grind
    refine ⟨?_, ?_, ?_⟩
    · simp [nodes, nodesOf_append, blocks_ended, hopen]
    · simp [hopen, hclose]
    · simp [nodes, nodesOf_append, plain_ended, hsemi, Nat.add_assoc]
  · have hsemi : t.isSemi = false := by grind
    have hclose : t.isClose = false := by grind
    refine ⟨?_, ?_, ?_⟩
    · simp [nodes, waitingNodes, nodesOf, suspend, blocks, hopen, Nat.add_assoc]
    · simp [hopen, hclose]
    · simp [nodes, waitingNodes, nodesOf, suspend, plain, hsemi]
  · have hsemi : t.isSemi = false := by grind
    have hopen : t.isOpen = false := by grind
    refine ⟨?_, ?_, ?_⟩
    · simp [nodes, hopen]
    · have hstray : strays [.unexpected t] = 1 := rfl
      simp only [strays_append, strays_warned, hstray, List.countP_singleton, hopen, hclose]
      simp only [Bool.false_eq_true, if_true, if_false]
      omega
    · simp [nodes, hsemi]
  · have hsemi : t.isSemi = false := by grind
    have hopen : t.isOpen = false := by grind
    refine ⟨?_, ?_, ?_⟩
    · simp only [nodes, nodes_resume, hwaiting]
      simp [hopen]
    · simp [hwaiting, strays_warned, hopen, hclose]
    · simp only [nodes, nodes_resume, hwaiting]
      simp [hsemi]
  · have hsemi : t.isSemi = false := by grind [Tok.isMark]
    have hopen : t.isOpen = false := by grind [Tok.isMark]
    have hclose : t.isClose = false := by grind [Tok.isMark]
    refine ⟨?_, ?_, ?_⟩
    · simp [nodes, hopen]
    · simp [hopen, hclose]
    · simp [nodes, hsemi]

/-- Over a run, every `{` is a block, every `}` ends a call that waits or is warned of, and a `;` is a
statement, at least where a word stands right before it. -/
theorem marks_run {limit : ℕ} {toks : List Tok} {s s' : Parser} (after : Bool)
    (hafter : after = true → s.head ≠ []) (h : toks.foldlM (step limit) s = some s') :
    blocks s'.nodes = blocks s.nodes + toks.countP Tok.isOpen ∧
    s'.waiting.length + toks.countP Tok.isClose + strays s.reports =
      s.waiting.length + toks.countP Tok.isOpen + strays s'.reports ∧
    plain s.nodes + endedWords after toks ≤ plain s'.nodes ∧
    plain s'.nodes ≤ plain s.nodes + toks.countP Tok.isSemi := by
  induction toks generalizing s after with
  | nil =>
    cases h
    exact ⟨rfl, rfl, le_rfl, le_rfl⟩
  | cons t toks ih =>
    rw [List.foldlM_cons, Option.bind_eq_bind, Option.bind_eq_some_iff] at h
    obtain ⟨next, hstep, hrun⟩ := h
    have hnext : (!t.isMark) = true → next.head ≠ [] := by
      intro hnone
      rcases step_cases hstep with ⟨hsemi, -⟩ | ⟨hopen, -⟩ | ⟨hclose, -⟩ | ⟨hclose, -⟩ | ⟨-, rfl⟩
      · simp [Tok.isMark, hsemi] at hnone
      · simp [Tok.isMark, hopen] at hnone
      · simp [Tok.isMark, hclose] at hnone
      · simp [Tok.isMark, hclose] at hnone
      · simp
    obtain ⟨hblocks, hwaits, hplain⟩ := marks_step hstep
    obtain ⟨hblocks', hwaits', hleast, hmost⟩ := ih _ hnext hrun
    have hsplit (p : Tok → Bool) : (t :: toks).countP p = [t].countP p + toks.countP p := by
      rw [← List.countP_append, List.singleton_append]
    have hopens := hsplit Tok.isOpen
    have hcloses := hsplit Tok.isClose
    have hsemis := hsplit Tok.isSemi
    rw [List.countP_singleton] at hsemis
    rw [endedWords]
    refine ⟨by omega, by omega, ?_, ?_⟩
    · grind
    · grind

/-! ## How deep a text nests -/

/-- A run goes through where its blocks nest no deeper than the interpreter lets `block` call itself. -/
theorem run_isSome {limit : ℕ} {toks : List Tok} {s : Parser} (h : s.waiting.length ≤ limit) :
    (toks.foldlM (step limit) s).isSome = true ↔ deepest s.waiting.length toks ≤ limit := by
  induction toks generalizing s with
  | nil => exact ⟨fun _ => h, fun _ => rfl⟩
  | cons t toks ih =>
    have hmarks := t.mark_cases
    rw [List.foldlM_cons, deepest]
    cases hstep : step limit s t with
    | none =>
      obtain ⟨hopen, hlimit⟩ := step_eq_none hstep
      have hdeep := le_deepest (s.waiting.length + 1) toks
      rw [if_pos hopen]
      constructor
      · intro hsome
        exact absurd hsome (by simp)
      · intro hle
        omega
    | some next =>
      rw [Option.bind_eq_bind, Option.bind_some]
      rcases step_cases hstep with ⟨hsemi, rfl⟩ | ⟨hopen, hlimit, rfl⟩ | ⟨hclose, hwaiting, rfl⟩ |
        ⟨hclose, c, waiting, hwaiting, rfl⟩ | ⟨hnone, rfl⟩
      · rw [if_neg (by grind), if_neg (by grind)]
        exact ih h
      · rw [if_pos hopen]
        exact ih (s := { s with waiting := s.suspend t :: s.waiting, out := [], head := [] }) hlimit
      · rw [if_neg (by grind), if_pos hclose]
        have hdeep := le_deepest 0 toks
        have hrest := ih (s := { s with
          reports := s.reports ++ warned .noEnd s.head ++ [.unexpected t] }) h
        rw [hrest, hwaiting]
        simp
      · rw [if_neg (by grind), if_pos hclose]
        have hlength : s.waiting.length = waiting.length + 1 := by rw [hwaiting]; rfl
        refine (ih (by show waiting.length ≤ limit; omega)).trans ?_
        rw [hlength, Nat.add_sub_cancel, max_le_iff]
        exact ⟨fun hle => ⟨by omega, hle⟩, fun hle => hle.2⟩
      · rw [if_neg (by grind [Tok.isMark]), if_neg (by grind [Tok.isMark])]
        exact ih h

end Parser

/-! ## Every token list -/

/-- What the statements and the warnings tell of the tokens. A token that is no mark is in a head of the
tree or in the statement that a warning is about, as often as it is in the text. Every block of the tree
is a `{`. A `}` ends a block, but where a warning says that it closes nothing; the blocks that end with
the file are warned of. A `;` ends a statement of the tree, at least where a token that is no mark stands
right before it. -/
structure Accounted (toks : List Tok) (sts : List Stmt) (reports : List Report) : Prop where
  words (t : Tok) (none : t.isMark = false) :
    toks.count t ≤
      ((nodesOf sts).flatMap Prod.fst).count t + (reports.flatMap Report.head).count t
  opens : Parser.blocks (nodesOf sts) = toks.countP Tok.isOpen
  closes : toks.countP Tok.isClose + reports.count .unclosed =
    Parser.blocks (nodesOf sts) + Parser.strays reports
  semis_le : Parser.plain (nodesOf sts) ≤ toks.countP Tok.isSemi
  le_semis : Parser.endedWords false toks ≤ Parser.plain (nodesOf sts)

/-- No warning of a step is about a block that ends with the file. -/
theorem count_unclosed_step {limit : ℕ} {s s' : Parser} {t : Tok}
    (h : Parser.step limit s t = some s') :
    s'.reports.count .unclosed = s.reports.count .unclosed := by
  have hwarned : (warned .noEnd s.head).count .unclosed = 0 := by
    cases s.head <;> rfl
  rcases Parser.step_cases h with ⟨-, rfl⟩ | ⟨-, -, rfl⟩ | ⟨-, -, rfl⟩ | ⟨-, c, waiting, -, rfl⟩ |
    ⟨-, rfl⟩ <;> simp [hwarned]

theorem count_unclosed_run {limit : ℕ} {toks : List Tok} {s s' : Parser}
    (h : toks.foldlM (Parser.step limit) s = some s') :
    s'.reports.count .unclosed = s.reports.count .unclosed := by
  induction toks generalizing s with
  | nil =>
    cases h
    rfl
  | cons t toks ih =>
    rw [List.foldlM_cons, Option.bind_eq_bind, Option.bind_eq_some_iff] at h
    obtain ⟨next, hstep, hrun⟩ := h
    rw [ih hrun, count_unclosed_step hstep]

/-- The parser ends on every token list that nests no deeper than `limit`, with an account of each. -/
theorem parseStatements_accounted {limit : ℕ} {toks : List Tok}
    (h : Parser.deepest 0 toks ≤ limit) :
    ∃ sts reports, parseStatements limit toks = some (sts, reports) ∧
      Accounted toks sts reports := by
  have hsome := (Parser.run_isSome (s := {}) (Nat.zero_le limit)).mpr h
  obtain ⟨s, hrun⟩ := Option.isSome_iff_exists.mp hsome
  obtain ⟨hnodes, hreports⟩ := Parser.close_eq s.waiting s.out
  obtain ⟨hblocks, hwaits, hleast, hmost⟩ := Parser.marks_run false nofun hrun
  have hunclosed : s.reports.count .unclosed = 0 := count_unclosed_run hrun
  have hkept : nodesOf s.finish.1 = s.nodes := hnodes
  have hwarned := Parser.flatMap_warned Report.unterminated (fun _ _ => rfl) s.head
  have hall : s.finish.2 = s.reports ++ warned .unterminated s.head ++
      List.replicate s.waiting.length .unclosed := by
    rw [Parser.finish, hreports]
  refine ⟨s.finish.1, s.finish.2, by rw [parseStatements, hrun]; rfl, ?_⟩
  constructor
  case words =>
    intro t hnone
    have hcount := Parser.count_run hrun t
    have hfilter : (toks.filter fun t => !t.isMark).count t = toks.count t :=
      List.count_filter (by simp [hnone])
    rw [hkept, hall]
    simp only [List.flatMap_append, List.count_append, hwarned]
    simp only [Parser.tokens, List.count_append, hfilter] at hcount
    omega
  case opens =>
    have hnone : Parser.blocks ({} : Parser).nodes = 0 := rfl
    rw [hkept]
    omega
  case closes =>
    have hnone : Parser.blocks ({} : Parser).nodes = 0 := rfl
    have hstart : Parser.strays ({} : Parser).reports = 0 := rfl
    have hdepth : ({} : Parser).waiting.length = 0 := rfl
    have hends : (warned .unterminated s.head).count .unclosed = 0 ∧
        Parser.strays (warned .unterminated s.head) = 0 := by
      cases s.head with
      | nil => exact ⟨rfl, rfl⟩
      | cons first rest => exact ⟨rfl, rfl⟩
    have hstray : Parser.strays (List.replicate s.waiting.length .unclosed) = 0 := by
      simp [Parser.strays, List.countP_replicate, Report.isUnexpected]
    rw [hkept, hall]
    simp only [List.count_append, Parser.strays_append, List.count_replicate_self, hends, hunclosed,
      hstray]
    omega
  case semis_le =>
    have hnone : Parser.plain ({} : Parser).nodes = 0 := rfl
    rw [hkept]
    omega
  case le_semis =>
    have hnone : Parser.plain ({} : Parser).nodes = 0 := rfl
    rw [hkept]
    omega

/-- Deeper than that, the parse ends in a `RecursionError`. -/
theorem parseStatements_eq_none {limit : ℕ} {toks : List Tok}
    (h : limit < Parser.deepest 0 toks) : parseStatements limit toks = none := by
  have hsome : (toks.foldlM (Parser.step limit) {}).isSome = true ↔ Parser.deepest 0 toks ≤ limit :=
    Parser.run_isSome (Nat.zero_le limit)
  have hnone : toks.foldlM (Parser.step limit) {} = none := by
    rw [← Option.not_isSome_iff_eq_none, hsome]
    exact Nat.not_le.mpr h
  rw [parseStatements, hnone]
  rfl

end JenKea.Import
