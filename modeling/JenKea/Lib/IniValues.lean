import JenKea.Lib.IniRegular

/-!
# Values with white space around their lines

A configuration may have values that a file does not hold as they are, for the white space around their lines. A
file gives such a value back with each line stripped, where no line of it but the first starts as a comment, and
something stands after each line end.
-/

namespace JenKea

open Text

namespace Ini

/-- A value as a file gives it back. -/
def trimLines (cs : List Char) : List Char := ['\n'].intercalate ((cs.splitOn '\n').map strip)

/-- `trimLines` of a text. -/
def trimValue (value : String) : String := String.ofList (trimLines value.toList)

/-- After each line end stands something that is no comment. -/
def Quiet (cs : List Char) : Prop :=
  ∀ before after, cs = before ++ '\n' :: after → lstrip after ≠ [] ∧ isComment (lstrip after) = false

section Strip

variable {a b cs : List Char}

theorem lstrip_append (h : lstrip a ≠ []) : lstrip (a ++ b) = lstrip a ++ b := by
  unfold lstrip at h ⊢
  rw [List.dropWhile_append, if_neg]
  rwa [List.isEmpty_iff]

theorem lstrip_eq_nil : lstrip cs = [] ↔ ∀ c ∈ cs, isSpace c = true := List.dropWhile_eq_nil_iff

theorem lstrip_blanks (ha : ∀ c ∈ a, isSpace c = true) : lstrip (a ++ b) = lstrip b :=
  List.dropWhile_append_of_pos ha

theorem rstrip_blanks (hb : ∀ c ∈ b, isSpace c = true) : rstrip (a ++ b) = rstrip a := by
  unfold rstrip
  rw [List.reverse_append, List.dropWhile_append_of_pos fun c hc => hb c (List.mem_reverse.mp hc)]

theorem rstrip_append (h : rstrip b ≠ []) : rstrip (a ++ b) = a ++ rstrip b := by
  have hne : b.reverse.dropWhile isSpace ≠ [] := fun hnil => h (by rw [rstrip, hnil]; rfl)
  unfold rstrip
  rw [List.reverse_append, List.dropWhile_append, if_neg (by rwa [List.isEmpty_iff]), List.reverse_append,
    List.reverse_reverse]

theorem rstrip_eq_nil : rstrip cs = [] ↔ ∀ c ∈ cs, isSpace c = true := by
  unfold rstrip
  rw [List.reverse_eq_nil_iff, List.dropWhile_eq_nil_iff]
  exact ⟨fun h c hc => h c (List.mem_reverse.mpr hc), fun h c hc => h c (List.mem_reverse.mp hc)⟩

theorem strip_eq_nil : strip cs = [] ↔ ∀ c ∈ cs, isSpace c = true := by
  unfold strip
  rw [rstrip_eq_nil]
  constructor
  · intro h
    rw [← lstrip_eq_nil]
    by_contra hne
    obtain ⟨c, rest, hc⟩ := List.exists_cons_of_ne_nil hne
    have hspace := h c (by rw [hc]; exact List.mem_cons_self)
    have hhead : isSpace c = false := @head_dropWhile isSpace cs c (by
      change (lstrip cs).head? = some c
      rw [hc]
      rfl)
    rw [hhead] at hspace
    cases hspace
  · intro h c hc
    rw [lstrip_eq_nil.mpr h] at hc
    exact absurd hc List.not_mem_nil

/-- White space around a text goes. -/
theorem strip_blanks (ha : ∀ c ∈ a, isSpace c = true) (hb : ∀ c ∈ b, isSpace c = true) :
    strip (a ++ cs ++ b) = strip cs := by
  by_cases hcs : lstrip cs = []
  · have hall : ∀ c ∈ a ++ cs ++ b, isSpace c = true := by
      intro c hc
      rcases List.mem_append.mp hc with hc | hc
      · exact (List.mem_append.mp hc).elim (ha c) (lstrip_eq_nil.mp hcs c)
      · exact hb c hc
    rw [strip_eq_nil.mpr hall, strip_eq_nil.mpr (lstrip_eq_nil.mp hcs)]
  · unfold strip
    rw [List.append_assoc, lstrip_blanks ha, lstrip_append hcs, rstrip_blanks hb]

theorem exists_rstrip_append (cs : List Char) : ∃ blanks, cs = rstrip cs ++ blanks ∧ ∀ c ∈ blanks, isSpace c = true := by
  refine ⟨(cs.reverse.takeWhile isSpace).reverse, ?_, fun c hc => ?_⟩
  · unfold rstrip
    rw [← List.reverse_append, List.takeWhile_append_dropWhile, List.reverse_reverse]
  · exact List.mem_takeWhile_imp (List.mem_reverse.mp hc)

theorem strip_rstrip : strip (a ++ rstrip b) = strip (a ++ b) := by
  obtain ⟨blanks, hb, hblanks⟩ := exists_rstrip_append b
  have hsame := @strip_blanks [] blanks (a ++ rstrip b) (fun c hc => absurd hc List.not_mem_nil) hblanks
  rw [List.nil_append, List.append_assoc, ← hb] at hsame
  exact hsame.symm

theorem strip_start_lstrip (cs : List Char) : strip cs <+: lstrip cs := by
  obtain ⟨blanks, hblanks, _⟩ := exists_rstrip_append (lstrip cs)
  exact ⟨blanks, hblanks.symm⟩

theorem isComment_append (h : a ≠ []) : isComment (a ++ b) = isComment a := by
  obtain ⟨c, rest, rfl⟩ := List.exists_cons_of_ne_nil h
  rfl

theorem isComment_of_prefix (h : a <+: b) (hb : isComment b = false) : isComment a = false := by
  obtain ⟨rest, rfl⟩ := h
  by_cases ha : a = []
  · rw [ha]
    rfl
  · rwa [isComment_append ha] at hb

end Strip

/-! ## Quiet texts -/

section Quiet

variable {a b cs x y : List Char} {ls : Lines}

theorem quiet_of_oneLine (h : '\n' ∉ cs) : Quiet cs := by
  intro before after heq
  exact absurd (heq ▸ List.mem_append_right before List.mem_cons_self) h

theorem Quiet.append (ha : Quiet a) (hb : Quiet b) : Quiet (a ++ b) := by
  intro before after heq
  rcases List.append_eq_append_iff.mp heq with ⟨rest, rfl, hrest⟩ | ⟨rest, rfl, hrest⟩
  · exact hb rest after hrest
  · cases rest with
    | nil => exact hb [] after hrest.symm
    | cons c rest =>
      rw [List.cons_append] at hrest
      obtain ⟨rfl, rfl⟩ := List.cons.inj hrest
      obtain ⟨hne, hcomment⟩ := ha before rest rfl
      rw [lstrip_append hne]
      exact ⟨List.append_ne_nil_of_left_ne_nil hne b, (isComment_append hne).trans hcomment⟩

/-- Where a text ends in no white space, something stands after each of its line ends. -/
theorem lstrip_ne_nil_of_ends (h : ∀ c, cs.getLast? = some c → isSpace c = false) {before after : List Char}
    (heq : cs = before ++ '\n' :: after) : lstrip after ≠ [] := by
  intro hnil
  by_cases hafter : after = []
  · have hlast := h '\n' (by rw [heq, hafter, List.getLast?_concat])
    exact absurd hlast (by decide)
  · have hlast := h (after.getLast hafter) (by
      rw [heq, List.getLast?_append, List.getLast?_cons, List.getLast?_eq_some_getLast hafter]
      rfl)
    rw [lstrip_eq_nil.mp hnil _ (List.getLast_mem hafter)] at hlast
    cases hlast

/-- A part of a quiet text is quiet, where it ends in no white space. -/
theorem Quiet.of_infix (h : Quiet (x ++ cs ++ y)) (hends : ∀ c, cs.getLast? = some c → isSpace c = false) :
    Quiet cs := by
  intro before after heq
  have hne := lstrip_ne_nil_of_ends hends heq
  have hwhole : x ++ cs ++ y = (x ++ before) ++ '\n' :: (after ++ y) := by
    rw [heq]
    simp
  have hcomment := (h _ _ hwhole).2
  rw [lstrip_append hne, isComment_append hne] at hcomment
  exact ⟨hne, hcomment⟩

/-- Lines that are no comments do not come to one. -/
theorem isComment_intercalate (h : ∀ l ∈ ls, Trimmed l ∧ isComment l = false) :
    isComment (lstrip (['\n'].intercalate ls)) = false := by
  induction ls with
  | nil => rfl
  | cons l ls ih =>
    obtain ⟨htrimmed, hcomment⟩ := h l List.mem_cons_self
    have hl : lstrip l = l := dropWhile_head htrimmed.1
    cases ls with
    | nil =>
      rw [List.intercalate_singleton, hl]
      exact hcomment
    | cons l' ls =>
      rw [List.intercalate_cons_cons]
      by_cases hempty : l = []
      · rw [hempty, List.nil_append, List.singleton_append]
        exact ih fun m hm => h m (List.mem_cons_of_mem l hm)
      · have hne : lstrip l ≠ [] := hl.symm ▸ hempty
        rw [List.append_assoc, lstrip_append hne, isComment_append hne, hl]
        exact hcomment

/-- A value that a file holds is quiet. -/
theorem RegularValue.quiet (h : RegularValue cs) : Quiet cs := by
  intro before after heq
  refine ⟨lstrip_ne_nil_of_ends h.ends heq, ?_⟩
  have hlines : cs.splitOn '\n' = before.splitOn '\n' ++ after.splitOn '\n' := by
    rw [heq, List.splitOn_append_cons_self]
  obtain ⟨first, rest, hfirst⟩ := List.exists_cons_of_ne_nil (List.splitOn_ne_nil '\n' before)
  have hmem : ∀ l ∈ after.splitOn '\n', l ∈ (cs.splitOn '\n').tail := by
    intro l hl
    rw [hlines, hfirst, List.cons_append, List.tail_cons]
    exact List.mem_append_right rest hl
  rw [← @List.intercalate_splitOn _ after _ _ '\n']
  exact isComment_intercalate fun l hl => ⟨h.trimmed l (List.mem_of_mem_tail (hmem l hl)), h.noComment l (hmem l hl)⟩

theorem intercalate_append {ms : Lines} (hls : ls ≠ []) (hms : ms ≠ []) :
    ['\n'].intercalate (ls ++ ms) = ['\n'].intercalate ls ++ '\n' :: ['\n'].intercalate ms := by
  induction ls with
  | nil => exact absurd rfl hls
  | cons l ls ih =>
    cases ls with
    | nil =>
      obtain ⟨m, ms, rfl⟩ := List.exists_cons_of_ne_nil hms
      simp [List.intercalate_cons_cons]
    | cons l' ls =>
      have hrest := ih (List.cons_ne_nil l' ls)
      rw [List.cons_append] at hrest
      rw [List.cons_append, List.cons_append, List.intercalate_cons_cons, hrest, List.intercalate_cons_cons]
      simp

theorem splitOn_trimLines : (trimLines cs).splitOn '\n' = (cs.splitOn '\n').map strip := by
  refine List.splitOn_intercalate '\n' (fun l hl => ?_) ?_
  · obtain ⟨m, hm, rfl⟩ := List.mem_map.mp hl
    exact fun hmem => (of_mem_splitOn m hm '\n' (mem_of_mem_strip hmem)).2 rfl
  · exact fun hnil => List.splitOn_ne_nil '\n' cs (List.map_eq_nil_iff.mp hnil)

/-- A value that a file holds is given back as it is. -/
theorem RegularValue.trimLines_eq (h : RegularValue cs) : trimLines cs = cs := by
  have hmap : (cs.splitOn '\n').map strip = cs.splitOn '\n' :=
    calc (cs.splitOn '\n').map strip = (cs.splitOn '\n').map id :=
          List.map_congr_left fun l hl => strip_of_trimmed (h.trimmed l hl)
      _ = cs.splitOn '\n' := List.map_id _
  rw [trimLines, hmap, List.intercalate_splitOn]

/-- A line of a value but the first stands after a line end. -/
theorem exists_of_mem_tail {l : List Char} (h : l ∈ (cs.splitOn '\n').tail) :
    ∃ before rest, cs = before ++ '\n' :: (l ++ rest) := by
  obtain ⟨first, tail, hfirst⟩ := List.exists_cons_of_ne_nil (List.splitOn_ne_nil '\n' cs)
  rw [hfirst, List.tail_cons] at h
  obtain ⟨t₁, t₂, rfl⟩ := List.append_of_mem h
  refine ⟨['\n'].intercalate (first :: t₁), (['\n'].intercalate (l :: t₂)).drop l.length, ?_⟩
  have hcs : cs = ['\n'].intercalate ((first :: t₁) ++ (l :: t₂)) := by
    rw [List.cons_append, ← hfirst, List.intercalate_splitOn]
  have hl : ['\n'].intercalate (l :: t₂) = l ++ (['\n'].intercalate (l :: t₂)).drop l.length := by
    cases t₂ with
    | nil => simp
    | cons m t₂ =>
      rw [List.intercalate_cons_cons, List.append_assoc, List.drop_left]
  rw [hcs, intercalate_append (List.cons_ne_nil _ _) (List.cons_ne_nil _ _)]
  rw [← hl]

/-- A quiet value is given back as one that a file holds. -/
theorem Quiet.regularValue (h : Quiet cs) (hreturn : '\r' ∉ cs) : RegularValue (trimLines cs) := by
  have hpieces : ∀ l ∈ cs.splitOn '\n', ∀ c ∈ l, c ∈ cs ∧ c ≠ '\n' := fun l hl => of_mem_splitOn l hl
  refine ⟨fun hmem => ?_, ?_, ?_, ?_⟩
  · rcases mem_intercalate hmem with heq | ⟨l, hl, hmem⟩
    · exact absurd heq (by decide)
    · obtain ⟨m, hm, rfl⟩ := List.mem_map.mp hl
      exact hreturn (hpieces m hm _ (mem_of_mem_strip hmem)).1
  · rw [splitOn_trimLines]
    intro l hl
    obtain ⟨m, _, rfl⟩ := List.mem_map.mp hl
    exact trimmed_strip m
  · rw [splitOn_trimLines, ← List.map_tail]
    intro l hl
    obtain ⟨m, hm, rfl⟩ := List.mem_map.mp hl
    obtain ⟨before, rest, heq⟩ := exists_of_mem_tail hm
    by_cases hblank : lstrip m = []
    · rw [strip_eq_nil.mpr (lstrip_eq_nil.mp hblank)]
      rfl
    · have hcomment := (h before (m ++ rest) heq).2
      rw [lstrip_append hblank, isComment_append hblank] at hcomment
      exact isComment_of_prefix (strip_start_lstrip m) hcomment
  · intro c hc
    obtain ⟨init, last, hlast⟩ : ∃ init last, cs.splitOn '\n' = init ++ [last] :=
      ⟨_, _, (List.dropLast_append_getLast (List.splitOn_ne_nil '\n' cs)).symm⟩
    unfold trimLines at hc
    rw [hlast, List.map_append, List.map_singleton] at hc
    by_cases hinit : init = []
    · rw [hinit, List.map_nil, List.nil_append, List.intercalate_singleton] at hc
      exact last_rstrip hc
    · -- the last line is not blank, for something stands after the line end before it
      have hne : init.map strip ≠ [] := fun hnil => hinit (List.map_eq_nil_iff.mp hnil)
      have hcs : cs = ['\n'].intercalate init ++ '\n' :: last := by
        rw [← intercalate_concat hinit, ← hlast, List.intercalate_splitOn]
      have hstrip : strip last ≠ [] := by
        intro hnil
        exact (h _ _ hcs).1 (lstrip_eq_nil.mpr (strip_eq_nil.mp hnil))
      rw [intercalate_concat hne, List.getLast?_append, List.getLast?_cons,
        List.getLast?_eq_some_getLast hstrip] at hc
      obtain rfl := Option.some.inj hc
      exact last_rstrip (List.getLast?_eq_some_getLast hstrip)

end Quiet

/-! ## Reading them -/

/-- A key that its line starts with, and ends at the sign. -/
structure PlainKey (key : String) : Prop where
  nonempty : key ≠ ""
  oneLine : '\n' ∉ key.toList ∧ '\r' ∉ key.toList
  trimmed : Trimmed key.toList
  noComment : isComment key.toList = false
  noHeader : key.toList.head? ≠ some '['
  noDelimiter : ∀ c ∈ key.toList, isDelimiter c = false
  lower : key.toLower = key

namespace Reading

variable {r : Reading} {key value : String} {l : List Char}

theorem strip_strip : strip (strip l) = strip l := strip_of_trimmed (trimmed_strip l)

/-- The first line of an option, stripped. -/
theorem exists_strip_line (h : PlainKey key) :
    ∃ rest, strip (key.toList ++ " = ".toList ++ l) = key.toList ++ ' ' :: '=' :: rest ∧ strip rest = strip l := by
  obtain ⟨c, cs, hcs⟩ := List.exists_cons_of_ne_nil (mt String.toList_eq_nil_iff.mp h.nonempty)
  have hc : isSpace c = false := h.trimmed.1 c (by rw [hcs]; rfl)
  have hlead : ∀ m : List Char, lstrip (key.toList ++ m) = key.toList ++ m := by
    intro m
    refine dropWhile_head fun d hd => ?_
    rw [hcs] at hd
    obtain rfl := Option.some.inj hd
    exact hc
  have hline : key.toList ++ " = ".toList ++ l = (key.toList ++ [' ', '=']) ++ (' ' :: l) := by simp
  have hsign : rstrip (key.toList ++ [' ', '=']) = key.toList ++ [' ', '='] := by
    refine rstrip_of_last fun d hd => ?_
    rw [List.getLast?_append] at hd
    obtain rfl := Option.some.inj hd
    decide
  have hblank : strip (' ' :: l) = strip l := strip_cons_of_isSpace (by decide)
  rw [hline]
  by_cases hl : rstrip (' ' :: l) = []
  · refine ⟨[], ?_, ?_⟩
    · unfold strip
      rw [List.append_assoc, hlead, ← List.append_assoc, rstrip_blanks (rstrip_eq_nil.mp hl), hsign]
    · rw [← hblank, strip_eq_nil.mpr (rstrip_eq_nil.mp hl)]
      rfl
  · refine ⟨rstrip (' ' :: l), ?_, ?_⟩
    · unfold strip
      rw [List.append_assoc, hlead, ← List.append_assoc, rstrip_append hl]
      simp
    · rw [← hblank]
      exact @strip_rstrip [] (' ' :: l)

/-- What an option line opens depends on its value by what is left of it stripped. -/
theorem readLine_key (h : PlainKey key) :
    r.readLine (key.toList ++ " = ".toList ++ l) = ({ r with indent := 0 } : Reading).open? key (strip l) := by
  obtain ⟨c, cs, hcs⟩ := List.exists_cons_of_ne_nil (mt String.toList_eq_nil_iff.mp h.nonempty)
  have hc : isSpace c = false := h.trimmed.1 c (by rw [hcs]; rfl)
  obtain ⟨rest, hstrip, hrest⟩ := @exists_strip_line key l h
  have hne : strip (key.toList ++ " = ".toList ++ l) ≠ [] := by
    rw [hstrip, hcs]
    exact List.cons_ne_nil _ _
  have hnotComment : isComment (strip (key.toList ++ " = ".toList ++ l)) = false := by
    rw [hstrip, ← h.noComment, hcs]
    rfl
  have hindent : ((key.toList ++ " = ".toList ++ l).takeWhile isSpace).length = 0 := by
    rw [hcs, List.cons_append, List.cons_append, List.takeWhile_cons_of_neg (by simp [hc])]
    rfl
  have hheader : header (strip (key.toList ++ " = ".toList ++ l)) = none := by
    have hbracket := h.noHeader
    rw [hcs] at hbracket
    rw [hstrip, hcs, List.cons_append]
    unfold header
    split
    · next heq =>
      obtain ⟨rfl, _⟩ := List.cons.inj heq
      exact absurd rfl hbracket
    · rfl
  have hkey : ∀ d ∈ key.toList ++ [' '], (!isDelimiter d) = true := by
    intro d hd
    rcases List.mem_append.mp hd with hd | hd
    · rw [h.noDelimiter d hd]
      rfl
    · rw [List.mem_singleton.mp hd]
      decide
  have hoption : option (strip (key.toList ++ " = ".toList ++ l)) = some (key, strip l) := by
    have hsplit : key.toList ++ ' ' :: '=' :: rest = (key.toList ++ [' ']) ++ '=' :: rest := by simp
    have hdrop : ((key.toList ++ [' ']) ++ '=' :: rest).dropWhile (fun d => !isDelimiter d) = '=' :: rest := by
      rw [List.dropWhile_append_of_pos hkey]
      rfl
    have htake : ((key.toList ++ [' ']) ++ '=' :: rest).takeWhile (fun d => !isDelimiter d) = key.toList ++ [' '] := by
      rw [List.takeWhile_append_of_pos hkey]
      exact List.append_nil _
    rw [hstrip, hsplit, option, hdrop]
    dsimp only
    rw [htake, rstrip_append_blank h.trimmed.2, String.ofList_toList, h.lower, hrest]
  unfold readLine
  dsimp only
  rw [if_neg (by rw [hnotComment]; exact Bool.false_ne_true), if_neg hne, hindent,
    if_neg fun hdeep => Nat.not_lt_zero _ hdeep.2, hheader, hoption]
  rfl

theorem withCursect_keeps {options : Map String Lines} :
    (r.withCursect options).optname = r.optname ∧ (r.withCursect options).indent = r.indent := by
  unfold withCursect
  cases r.sectname with
  | none => exact ⟨rfl, rfl⟩
  | some s => by_cases hdefault : s = defaultSection <;> simp [hdefault]

theorem of_open? {r' : Reading} (h : r.open? key l = some r') : r'.optname = some key ∧ r'.indent = r.indent := by
  unfold open? at h
  split_ifs at h
  obtain rfl := Option.some.inj h
  exact ⟨rfl, withCursect_keeps.2⟩

/-- A further line of a value counts by what is left of it stripped. -/
theorem readLine_tab (hkey : r.optname.isSome = true) (hindent : r.indent = 0) :
    r.readLine ('\t' :: l) = if isComment (strip l) then some r else some (r.append (strip l)) := by
  have hstrip : strip ('\t' :: l) = strip l := strip_cons_of_isSpace (by decide)
  have hdeep : r.indent < (('\t' :: l).takeWhile isSpace).length := by
    rw [hindent, List.takeWhile_cons_of_pos (by decide), List.length_cons]
    omega
  unfold readLine
  dsimp only
  rw [hstrip]
  by_cases hcomment : isComment (strip l) = true
  · rw [if_pos hcomment, if_pos hcomment]
  · rw [if_neg hcomment, if_neg hcomment]
    by_cases hempty : strip l = []
    · rw [if_pos hempty, hempty]
    · rw [if_neg hempty, if_pos ⟨hkey, hdeep⟩]

theorem append_keeps : (r.append l).optname = r.optname ∧ (r.append l).indent = r.indent := by
  cases ho : r.optname with
  | none =>
    have heq : r.append l = r := by rw [append, ho]
    rw [heq]
    exact ⟨ho, rfl⟩
  | some o =>
    have heq : r.append l = r.withCursect (r.cursect.put o (((r.cursect.get o).getD []) ++ [l])) := by
      rw [append, ho]
    rw [heq, ← ho]
    exact withCursect_keeps

/-- The further lines of a value, stripped or not. -/
theorem foldlM_tabs {ls : Lines} (hkey : r.optname.isSome = true) (hindent : r.indent = 0) :
    (ls.map ('\t' :: ·)).foldlM readLine r = ((ls.map strip).map ('\t' :: ·)).foldlM readLine r := by
  induction ls generalizing r with
  | nil => rfl
  | cons l ls ih =>
    have hline : r.readLine ('\t' :: strip l) = r.readLine ('\t' :: l) := by
      rw [readLine_tab hkey hindent, readLine_tab hkey hindent, strip_strip]
    rw [List.map_cons, List.map_cons, List.map_cons, List.foldlM_cons, List.foldlM_cons, hline,
      readLine_tab hkey hindent]
    by_cases hcomment : isComment (strip l) = true
    · rw [if_pos hcomment]
      exact ih hkey hindent
    · rw [if_neg hcomment]
      obtain ⟨hname, hdeep⟩ := @append_keeps r (strip l)
      exact ih (hname ▸ hkey) (hdeep.trans hindent)

/-- An option reads the same with the white space around the lines of its value and without it. -/
theorem foldlM_trimmed {x : String × String} (h : PlainKey x.1) :
    (optionLines x).foldlM readLine r = (optionLines (x.1, trimValue x.2)).foldlM readLine r := by
  obtain ⟨l, ls, hls⟩ := List.exists_cons_of_ne_nil (List.splitOn_ne_nil '\n' x.2.toList)
  have htrimmed : (trimValue x.2).toList.splitOn '\n' = strip l :: ls.map strip := by
    rw [trimValue, String.toList_ofList, splitOn_trimLines, hls, List.map_cons]
  unfold optionLines
  rw [hls, htrimmed]
  dsimp only
  rw [List.foldlM_cons, List.foldlM_cons, readLine_key h, readLine_key h, strip_strip]
  cases hopen : ({ r with indent := 0 } : Reading).open? x.1 (strip l) with
  | none => rfl
  | some r' =>
    obtain ⟨hname, hindent⟩ := of_open? hopen
    exact foldlM_tabs (by rw [hname]; rfl) hindent

end Reading

/-! ## Configurations -/

/-- A configuration as a file gives it back. -/
def trimmed (p : Ini) : Ini :=
  ⟨p.defaults.mapValues trimValue, p.sections.mapValues fun options => options.mapValues trimValue⟩

/-- An option that a file holds, but for white space around the lines of its value. -/
def HeldOption (key value : String) : Prop :=
  RegularOption key value.toList ∨ (PlainKey key ∧ Quiet value.toList ∧ '\r' ∉ value.toList)

/-- A configuration that a file holds, but for white space around the lines of its values. -/
structure Held (p : Ini) : Prop where
  defaults : ∀ x ∈ p.defaults.entries, HeldOption x.1 x.2
  sections : ∀ x ∈ p.sections.entries, x.1 ≠ "" ∧ ('\n' ∉ x.1.toList ∧ '\r' ∉ x.1.toList) ∧
    ∀ y ∈ x.2.entries, HeldOption y.1 y.2
  noDefault : defaultSection ∉ p.sections.keys

section Held

variable {p : Ini} {key value : String} {options : Map String String} {r : Reading}

theorem trimValue_of_regular (h : RegularValue value.toList) : trimValue value = value := by
  rw [trimValue, h.trimLines_eq, String.ofList_toList]

theorem PlainKey.regularOption (h : PlainKey key) {cs : List Char} (hcs : RegularValue cs) :
    RegularOption key cs := by
  refine ⟨h.nonempty, h.oneLine, h.trimmed, h.noComment, h.noDelimiter, h.lower, ?_, hcs⟩
  obtain ⟨c, rest, hc⟩ := List.exists_cons_of_ne_nil (mt String.toList_eq_nil_iff.mp h.nonempty)
  have hbracket := h.noHeader
  obtain ⟨tail, hstrip, _⟩ := @Reading.exists_strip_line key ((cs.splitOn '\n').headD []) h
  rw [hc] at hbracket
  rw [hstrip, hc, List.cons_append]
  unfold header
  split
  · next heq =>
    obtain ⟨rfl, _⟩ := List.cons.inj heq
    exact absurd rfl hbracket
  · rfl

theorem HeldOption.trimmed (h : HeldOption key value) : RegularOption key (trimValue value).toList := by
  rcases h with h | ⟨hkey, hquiet, hreturn⟩
  · rw [trimValue_of_regular h.regular]
    exact h
  · rw [trimValue, String.toList_ofList]
    exact hkey.regularOption (hquiet.regularValue hreturn)

theorem HeldOption.oneLine (h : HeldOption key value) : ∀ l ∈ optionLines (key, value), '\n' ∉ l ∧ '\r' ∉ l := by
  have hkey : '\n' ∉ key.toList ∧ '\r' ∉ key.toList := h.elim (·.oneLine) (·.1.oneLine)
  have hreturn : '\r' ∉ value.toList := h.elim (·.regular.noReturn) (·.2.2)
  have hpieces : ∀ p ∈ value.toList.splitOn '\n', '\n' ∉ p ∧ '\r' ∉ p := fun p hp =>
    ⟨fun hmem => (of_mem_splitOn p hp '\n' hmem).2 rfl, fun hmem => hreturn (of_mem_splitOn p hp '\r' hmem).1⟩
  intro l hl
  unfold optionLines at hl
  obtain ⟨p, ps, hps⟩ := List.exists_cons_of_ne_nil (List.splitOn_ne_nil '\n' value.toList)
  rw [hps] at hl hpieces
  dsimp only at hl
  rcases List.mem_cons.mp hl with rfl | hl
  · obtain ⟨hn, hr⟩ := hpieces p List.mem_cons_self
    simp [hkey.1, hkey.2, hn, hr]
  · obtain ⟨p', hp', rfl⟩ := List.mem_map.mp hl
    obtain ⟨hn, hr⟩ := hpieces p' (List.mem_cons_of_mem p hp')
    simp [hn, hr]

theorem HeldOption.foldlM_trimmed (h : HeldOption key value) :
    (optionLines (key, value)).foldlM Reading.readLine r =
      (optionLines (key, trimValue value)).foldlM Reading.readLine r := by
  rcases h with h | ⟨hkey, _⟩
  · rw [trimValue_of_regular h.regular]
  · exact Reading.foldlM_trimmed (x := (key, value)) hkey

theorem foldlM_options_trimmed {l : List (String × String)} (h : ∀ x ∈ l, HeldOption x.1 x.2) :
    (l.flatMap optionLines).foldlM Reading.readLine r =
      ((l.map fun x => (x.1, trimValue x.2)).flatMap optionLines).foldlM Reading.readLine r := by
  induction l generalizing r with
  | nil => rfl
  | cons x l ih =>
    have hfirst := (h x List.mem_cons_self).foldlM_trimmed (r := r)
    rw [List.flatMap_cons, List.map_cons, List.flatMap_cons, List.foldlM_append, List.foldlM_append]
    rw [show x = (x.1, x.2) from rfl, hfirst]
    exact bind_congr fun r' => ih fun y hy => h y (List.mem_cons_of_mem x hy)

theorem foldlM_section_trimmed {name : String} (h : ∀ x ∈ options.entries, HeldOption x.1 x.2) :
    (sectionLines (name, options)).foldlM Reading.readLine r =
      (sectionLines (name, options.mapValues trimValue)).foldlM Reading.readLine r := by
  unfold sectionLines
  rw [List.foldlM_cons, List.foldlM_cons]
  refine bind_congr fun r' => ?_
  rw [List.foldlM_append, List.foldlM_append, foldlM_options_trimmed h]
  rfl

theorem foldlM_sections_trimmed {l : List (String × Map String String)}
    (h : ∀ x ∈ l, ∀ y ∈ x.2.entries, HeldOption y.1 y.2) :
    (l.flatMap sectionLines).foldlM Reading.readLine r =
      ((l.map fun x => (x.1, x.2.mapValues trimValue)).flatMap sectionLines).foldlM Reading.readLine r := by
  induction l generalizing r with
  | nil => rfl
  | cons x l ih =>
    have hfirst := @foldlM_section_trimmed _ r x.1 (h x List.mem_cons_self)
    rw [List.flatMap_cons, List.map_cons, List.flatMap_cons, List.foldlM_append, List.foldlM_append]
    rw [show x = (x.1, x.2) from rfl, hfirst]
    exact bind_congr fun r' => ih fun y hy => h y (List.mem_cons_of_mem x hy)

theorem HeldOption.oneLines {name : String} (hname : '\n' ∉ name.toList ∧ '\r' ∉ name.toList)
    (h : ∀ x ∈ options.entries, HeldOption x.1 x.2) : ∀ l ∈ sectionLines (name, options), '\n' ∉ l ∧ '\r' ∉ l := by
  intro l hl
  unfold sectionLines at hl
  rcases List.mem_cons.mp hl with rfl | hl
  · simp [hname.1, hname.2]
  · rcases List.mem_append.mp hl with hl | hl
    · obtain ⟨y, hy, hl⟩ := List.mem_flatMap.mp hl
      exact (h y hy).oneLine l hl
    · rw [List.mem_singleton.mp hl]
      exact ⟨List.not_mem_nil, List.not_mem_nil⟩

theorem Held.trimmed (h : Held p) : Regular p.trimmed := by
  refine ⟨?_, ?_, ?_⟩
  · intro x hx
    obtain ⟨y, hy, rfl⟩ := List.mem_map.mp hx
    exact (h.defaults y hy).trimmed
  · intro x hx
    obtain ⟨y, hy, rfl⟩ := List.mem_map.mp hx
    obtain ⟨hne, hline, hoptions⟩ := h.sections y hy
    refine ⟨hne, hline, fun z hz => ?_⟩
    obtain ⟨w, hw, rfl⟩ := List.mem_map.mp hz
    exact (hoptions w hw).trimmed
  · have hkeys : p.trimmed.sections.keys = p.sections.keys := by
      simp [Ini.trimmed, Map.keys, Map.mapValues]
    exact hkeys ▸ h.noDefault

/-- The lines of a configuration. -/
def fileLines (p : Ini) : Lines :=
  (if p.defaults.entries = [] then [] else sectionLines (defaultSection, p.defaults)) ++
    p.sections.entries.flatMap sectionLines

theorem read_write_eq (h : ∀ l ∈ fileLines p, '\n' ∉ l ∧ '\r' ∉ l) :
    read (write p) = ((fileLines p).foldlM Reading.readLine Reading.start).map Reading.toIni := by
  have hsections : p.sections.entries.flatMap writeSection =
      (p.sections.entries.flatMap sectionLines).flatMap fun l => l ++ ['\n'] := by
    rw [List.flatMap_assoc]
    exact List.flatMap_congr fun x _ => writeSection_eq x
  have hwrite : (write p).toList = (fileLines p).flatMap fun l => l ++ ['\n'] := by
    unfold write fileLines
    rw [String.toList_ofList, hsections, List.flatMap_append]
    by_cases hempty : p.defaults.entries = []
    · rw [if_pos hempty, if_pos hempty]
      rfl
    · rw [if_neg hempty, if_neg hempty, writeSection_eq]
  rw [read, hwrite, lines_flatMap h]

theorem Held.of_regular (h : Regular p) : Held p :=
  ⟨fun x hx => Or.inl (h.defaults x hx),
    fun x hx => ⟨(h.sections x hx).nonempty, (h.sections x hx).oneLine,
      fun y hy => Or.inl ((h.sections x hx).regular y hy)⟩, h.noDefault⟩

theorem Held.oneLine (h : Held p) : ∀ l ∈ fileLines p, '\n' ∉ l ∧ '\r' ∉ l := by
  have hdefaults : '\n' ∉ defaultSection.toList ∧ '\r' ∉ defaultSection.toList := by decide
  intro l hl
  rcases List.mem_append.mp hl with hl | hl
  · by_cases hempty : p.defaults.entries = []
    · rw [if_pos hempty] at hl
      exact absurd hl List.not_mem_nil
    · rw [if_neg hempty] at hl
      exact HeldOption.oneLines hdefaults h.defaults l hl
  · obtain ⟨x, hx, hl⟩ := List.mem_flatMap.mp hl
    obtain ⟨_, hname, hoptions⟩ := h.sections x hx
    exact HeldOption.oneLines hname hoptions l hl

theorem Held.foldlM_trimmed (h : Held p) :
    (fileLines p).foldlM Reading.readLine Reading.start =
      (fileLines p.trimmed).foldlM Reading.readLine Reading.start := by
  have hfirst : (if p.defaults.entries = [] then [] else
        sectionLines (defaultSection, p.defaults)).foldlM Reading.readLine Reading.start =
      (if p.trimmed.defaults.entries = [] then [] else
        sectionLines (defaultSection, p.trimmed.defaults)).foldlM Reading.readLine Reading.start := by
    have hnil : p.trimmed.defaults.entries = [] ↔ p.defaults.entries = [] := List.map_eq_nil_iff
    by_cases hempty : p.defaults.entries = []
    · rw [if_pos hempty, if_pos (hnil.mpr hempty)]
    · rw [if_neg hempty, if_neg (mt hnil.mp hempty)]
      exact foldlM_section_trimmed h.defaults
  unfold fileLines
  rw [List.foldlM_append, List.foldlM_append, hfirst]
  exact bind_congr fun r => foldlM_sections_trimmed fun x hx => (h.sections x hx).2.2

/-- What is written is read back, but for the white space around the lines of its values. -/
theorem Held.read_write (h : Held p) : read (write p) = some p.trimmed := by
  have hlines := (Held.of_regular h.trimmed).oneLine
  rw [read_write_eq h.oneLine, h.foldlM_trimmed, ← read_write_eq hlines, Ini.read_write h.trimmed]

end Held

end Ini

end JenKea
