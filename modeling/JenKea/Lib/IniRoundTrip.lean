import JenKea.Lib.Ini

/-!
# What is written is read back

The round trip of configuration files, from one option line up: the reader makes of the lines that the
writer writes for an option, a section and a configuration what they were written for.
-/

namespace JenKea

open Text

namespace Ini

/-! ## Trimming -/

theorem dropWhile_head {cs : List Char} (h : ∀ c, cs.head? = some c → isSpace c = false) :
    cs.dropWhile isSpace = cs := by
  cases cs with
  | nil => rfl
  | cons c cs => exact List.dropWhile_cons_of_neg (by simp [h c rfl])

theorem rstrip_of_last {cs : List Char} (h : ∀ c, cs.getLast? = some c → isSpace c = false) :
    rstrip cs = cs := by
  have hrev : ∀ c, cs.reverse.head? = some c → isSpace c = false := by
    intro c hc
    rw [List.head?_reverse] at hc
    exact h c hc
  rw [rstrip, dropWhile_head hrev, List.reverse_reverse]

theorem strip_of_trimmed {cs : List Char} (h : Trimmed cs) : strip cs = cs := by
  rw [strip, lstrip, dropWhile_head h.1, rstrip_of_last h.2]

/-- White space in front goes. -/
theorem strip_cons_of_isSpace {c : Char} {cs : List Char} (h : isSpace c = true) :
    strip (c :: cs) = strip cs := by
  rw [strip, lstrip, List.dropWhile_cons_of_pos h]
  rfl

/-- A blank at the end goes. -/
theorem rstrip_append_blank {cs : List Char} (h : ∀ c, cs.getLast? = some c → isSpace c = false) :
    rstrip (cs ++ [' ']) = cs := by
  rw [rstrip, List.reverse_append, List.reverse_singleton, List.singleton_append,
    List.dropWhile_cons_of_pos (by decide)]
  exact rstrip_of_last h

/-- The first line of a value is trimmed. -/
theorem RegularValue.trimmed_head {value : List Char} (h : RegularValue value) :
    Trimmed ((value.splitOn '\n').headD []) := by
  obtain ⟨l, ls, hls⟩ := List.exists_cons_of_ne_nil (List.splitOn_ne_nil '\n' value)
  rw [hls]
  exact h.trimmed l (by rw [hls]; exact List.mem_cons_self)

/-- The first line of an option, stripped: the blank after the sign stays where a value follows. -/
theorem strip_line {cs l : List Char} (hne : cs ≠ []) (hcs : Trimmed cs) (hl : Trimmed l) :
    strip (cs ++ " = ".toList ++ l) = cs ++ ' ' :: '=' :: (if l = [] then [] else ' ' :: l) := by
  have hhead : ∀ (m : List Char) (c : Char), (cs ++ m).head? = some c → isSpace c = false := by
    intro m c hc
    obtain ⟨d, ds, rfl⟩ := List.exists_cons_of_ne_nil hne
    exact hcs.1 c hc
  by_cases hempty : l = []
  · have hlast : ∀ c, (cs ++ [' ', '=']).getLast? = some c → isSpace c = false := by
      intro c hc
      rw [List.getLast?_append] at hc
      obtain rfl := Option.some.inj hc
      decide
    have hline : cs ++ " = ".toList ++ l = cs ++ [' ', '='] ++ [' '] := by simp [hempty]
    rw [if_pos hempty, strip, lstrip, dropWhile_head (by rw [List.append_assoc]; exact hhead _), hline,
      rstrip_append_blank hlast]
  · have hline : cs ++ " = ".toList ++ l = cs ++ ' ' :: '=' :: ' ' :: l := by simp
    have hlast : ∀ c, (cs ++ ' ' :: '=' :: ' ' :: l).getLast? = some c → isSpace c = false := by
      intro c hc
      have hd := List.getLast?_eq_some_getLast hempty
      refine hl.2 c ?_
      rw [← hc, List.getLast?_append, List.getLast?_cons, List.getLast?_cons, List.getLast?_cons, hd]
      rfl
    rw [if_neg hempty, hline, strip_of_trimmed ⟨hhead _, hlast⟩]

/-- The first line of an option, as the reader takes it apart. -/
theorem option_line {key : String} {value l : List Char} (h : RegularOption key value)
    (hl : Trimmed l) : option (strip (key.toList ++ " = ".toList ++ l)) = some (key, l) := by
  have hkey : ∀ c ∈ key.toList, (!isDelimiter c) = true := by
    intro c hc
    rw [h.noDelimiter c hc]
    rfl
  have hvalue : strip (if l = [] then [] else ' ' :: l) = l := by
    by_cases hempty : l = []
    · rw [if_pos hempty, hempty]
      rfl
    · rw [if_neg hempty, strip_cons_of_isSpace (by decide), strip_of_trimmed hl]
  have hdrop : ∀ m : List Char, (key.toList ++ ' ' :: '=' :: m).dropWhile (fun c => !isDelimiter c) =
      '=' :: m := by
    intro m
    rw [List.dropWhile_append_of_pos hkey]
    rfl
  have htake : ∀ m : List Char, (key.toList ++ ' ' :: '=' :: m).takeWhile (fun c => !isDelimiter c) =
      key.toList ++ [' '] := by
    intro m
    rw [List.takeWhile_append_of_pos hkey]
    rfl
  rw [strip_line (mt String.toList_eq_nil_iff.mp h.nonempty) h.trimmed hl, option, hdrop]
  dsimp only
  rw [htake, hvalue, rstrip_append_blank h.trimmed.2, String.ofList_toList, h.lower]

/-! ## Lines of a file -/

theorem universal_of_noReturn {cs : List Char} (h : '\r' ∉ cs) : universal cs = cs := by
  induction cs with
  | nil => rfl
  | cons c cs ih =>
    rw [List.mem_cons, not_or] at h
    have hc : c ≠ '\r' := fun heq => h.1 heq.symm
    rw [universal.eq_4 c cs (fun _ heq _ => hc heq) hc, ih h.2]

/-- A text of lines has these lines. -/
theorem lines_flatMap {ls : Lines} (h : ∀ l ∈ ls, '\n' ∉ l ∧ '\r' ∉ l) :
    lines (ls.flatMap fun l => l ++ ['\n']) = ls := by
  have hreturn : '\r' ∉ ls.flatMap fun l => l ++ ['\n'] := by
    rw [List.mem_flatMap]
    rintro ⟨l, hl, hmem⟩
    rcases List.mem_append.mp hmem with hmem | hmem
    · exact (h l hl).2 hmem
    · exact absurd (List.mem_singleton.mp hmem) (by decide)
  have hsplit : (ls.flatMap fun l => l ++ ['\n']).splitOn '\n' = ls ++ [[]] := by
    clear hreturn
    induction ls with
    | nil => rfl
    | cons l ls ih =>
      rw [List.flatMap_cons, List.append_assoc, List.singleton_append,
        List.splitOn_append_cons_self_of_not_mem (h l List.mem_cons_self).1,
        ih fun l' hl' => h l' (List.mem_cons_of_mem l hl')]
      rfl
  unfold lines
  dsimp only
  rw [universal_of_noReturn hreturn, hsplit, List.getLast?_concat, if_pos rfl, List.dropLast_concat]

/-- What stands in the pieces of a text stands in the text, and is not what it is split at. -/
theorem of_mem_splitOn {cs : List Char} {c : Char} :
    ∀ l ∈ cs.splitOn c, ∀ d ∈ l, d ∈ cs ∧ d ≠ c := by
  induction cs with
  | nil =>
    intro l hl
    rw [List.mem_singleton.mp hl]
    exact nofun
  | cons e cs ih =>
    intro l hl d hd
    rw [List.splitOn_cons_eq_if_modifyHead] at hl
    have hrest : ∀ l' ∈ cs.splitOn c, ∀ d ∈ l', d ∈ e :: cs ∧ d ≠ c := fun l' hl' d hd =>
      ⟨List.mem_cons_of_mem e (ih l' hl' d hd).1, (ih l' hl' d hd).2⟩
    by_cases he : (e == c) = true
    · rw [if_pos he] at hl
      rcases List.mem_cons.mp hl with rfl | hl
      · exact absurd hd List.not_mem_nil
      · exact hrest l hl d hd
    · rw [if_neg he] at hl
      obtain ⟨p, ps, hps⟩ := List.exists_cons_of_ne_nil (List.splitOn_ne_nil c cs)
      rw [hps] at hrest
      rw [hps, List.modifyHead_cons] at hl
      rcases List.mem_cons.mp hl with rfl | hl
      · rcases List.mem_cons.mp hd with rfl | hd
        · exact ⟨List.mem_cons_self, by simpa using he⟩
        · exact hrest p List.mem_cons_self d hd
      · exact hrest l (List.mem_cons_of_mem p hl) d hd

/-! ## Lines that are written -/

/-- The lines of an option. -/
def optionLines (x : String × String) : Lines :=
  match x.2.toList.splitOn '\n' with
  | [] => []
  | l :: ls => (x.1.toList ++ " = ".toList ++ l) :: ls.map ('\t' :: ·)

/-- The lines of a section. -/
def sectionLines (x : String × Map String String) : Lines :=
  (('[' :: x.1.toList) ++ [']']) :: (x.2.entries.flatMap optionLines ++ [[]])

theorem writeOption_eq (x : String × String) :
    writeOption x = (optionLines x).flatMap fun l => l ++ ['\n'] := by
  -- the value between its first line and the line end of the last
  have htabs : ∀ (l : List Char) (ls : Lines), (∀ l' ∈ l :: ls, '\n' ∉ l') →
      ((['\n'].intercalate (l :: ls)).flatMap fun c => if c = '\n' then ['\n', '\t'] else [c]) ++
        ['\n'] = l ++ ['\n'] ++ (ls.map ('\t' :: ·)).flatMap fun l' => l' ++ ['\n'] := by
    have hplain : ∀ l : List Char, '\n' ∉ l →
        (l.flatMap fun c => if c = '\n' then ['\n', '\t'] else [c]) = l := by
      intro l hl
      induction l with
      | nil => rfl
      | cons c l ih =>
        rw [List.mem_cons, not_or] at hl
        rw [List.flatMap_cons, if_neg fun heq => hl.1 heq.symm, ih hl.2]
        rfl
    intro l ls
    induction ls generalizing l with
    | nil =>
      intro h
      rw [List.intercalate_singleton, hplain l (h l List.mem_cons_self)]
      simp
    | cons l' ls ih =>
      intro h
      have hl := hplain l (h l List.mem_cons_self)
      have hls := ih l' fun l'' hl'' => h l'' (List.mem_cons_of_mem l hl'')
      rw [List.intercalate_cons_cons, List.flatMap_append, List.flatMap_append, hl, List.append_assoc,
        hls]
      simp
  have hpieces := @List.intercalate_splitOn _ x.2.toList _ _ '\n'
  obtain ⟨l, ls, hls⟩ := List.exists_cons_of_ne_nil (List.splitOn_ne_nil '\n' x.2.toList)
  rw [hls] at hpieces
  have hno : ∀ l' ∈ l :: ls, '\n' ∉ l' := by
    intro l' hl' hmem
    exact (of_mem_splitOn l' (by rw [hls]; exact hl') '\n' hmem).2 rfl
  have hvalue := htabs l ls hno
  rw [hpieces] at hvalue
  unfold writeOption optionLines
  rw [hls]
  dsimp only
  rw [List.append_assoc, hvalue, List.flatMap_cons]
  simp

theorem writeSection_eq (x : String × Map String String) :
    writeSection x = (sectionLines x).flatMap fun l => l ++ ['\n'] := by
  have hoptions : x.2.entries.flatMap writeOption =
      (x.2.entries.flatMap optionLines).flatMap fun l => l ++ ['\n'] := by
    rw [List.flatMap_assoc]
    exact List.flatMap_congr fun y _ => writeOption_eq y
  unfold writeSection sectionLines
  rw [hoptions, List.flatMap_cons, List.flatMap_append]
  simp

/-! ## Reading them -/

namespace Reading

variable {r : Reading} {options options' : Map String Lines} {key : String} {l : List Char}

/-- In an option of the section that the reader is in, whose options are replaced. -/
def inside (r : Reading) (options : Map String Lines) (optname : Option String) : Reading :=
  { r.withCursect options with optname := optname, indent := 0 }

theorem sectname_withCursect : (r.withCursect options).sectname = r.sectname := by
  unfold withCursect
  split
  · rfl
  · split_ifs <;> rfl

theorem withCursect_indent {n : ℕ} :
    ({ r with indent := n } : Reading).withCursect options =
      { r.withCursect options with indent := n } := by
  cases hs : r.sectname with
  | none => simp [withCursect, hs]
  | some s =>
    by_cases hdefault : s = defaultSection
    · simp [withCursect, hs, hdefault]
    · simp [withCursect, hs, hdefault]

theorem cursect_withCursect (h : r.sectname.isSome = true) :
    (r.withCursect options).cursect = options := by
  unfold cursect
  rw [sectname_withCursect]
  unfold withCursect
  obtain ⟨s, hs⟩ := Option.isSome_iff_exists.mp h
  rw [hs]
  dsimp only
  split_ifs with hdefault
  · rfl
  · rw [Map.get_put, if_pos rfl]
    rfl

theorem withCursect_withCursect :
    (r.withCursect options).withCursect options' = r.withCursect options' := by
  cases hs : r.sectname with
  | none => simp [withCursect, hs]
  | some s =>
    by_cases hdefault : s = defaultSection
    · simp [withCursect, hs, hdefault]
    · simp [withCursect, hs, hdefault, Map.put_put]

@[simp] theorem sectname_inside {o : Option String} : (r.inside options o).sectname = r.sectname :=
  sectname_withCursect

theorem cursect_inside {o : Option String} (h : r.sectname.isSome = true) :
    (r.inside options o).cursect = options :=
  cursect_withCursect h

theorem inside_inside {o o' : Option String} :
    (r.inside options o).inside options' o' = r.inside options' o' := by
  cases hs : r.sectname with
  | none => simp [inside, withCursect, hs]
  | some s =>
    by_cases hdefault : s = defaultSection
    · simp [inside, withCursect, hs, hdefault]
    · simp [inside, withCursect, hs, hdefault, Map.put_put]

/-- A new option. -/
theorem readLine_option {value : List Char} (h : RegularOption key value)
    (hl : l = (value.splitOn '\n').headD []) (hsect : r.sectname.isSome = true)
    (hget : r.cursect.get key = none) :
    r.readLine (key.toList ++ " = ".toList ++ l) =
      some (r.inside (r.cursect.put key [l]) (some key)) := by
  have htrimmed : Trimmed l := hl ▸ h.regular.trimmed_head
  obtain ⟨c, cs, hcs⟩ := List.exists_cons_of_ne_nil (mt String.toList_eq_nil_iff.mp h.nonempty)
  have hc : isSpace c = false := h.trimmed.1 c (by rw [hcs]; rfl)
  have hstrip := strip_line (mt String.toList_eq_nil_iff.mp h.nonempty) h.trimmed htrimmed
  have hnotComment : isComment (strip (key.toList ++ " = ".toList ++ l)) = false := by
    rw [hstrip, ← h.noComment, hcs]
    rfl
  have hne : strip (key.toList ++ " = ".toList ++ l) ≠ [] := by
    rw [hstrip, hcs]
    exact List.cons_ne_nil _ _
  have hindent : ((key.toList ++ " = ".toList ++ l).takeWhile isSpace).length = 0 := by
    rw [hcs, List.cons_append, List.cons_append, List.takeWhile_cons_of_neg (by simp [hc])]
    rfl
  have hheader : header (strip (key.toList ++ " = ".toList ++ l)) = none := hl ▸ h.noHeader
  have hnone : r.sectname ≠ none := Option.isSome_iff_ne_none.mp hsect
  have hopen : ¬ (r.sectname = none ∨ key = "" ∨ (r.cursect.get key).isSome = true) := by
    simp [hnone, h.nonempty, hget]
  unfold readLine
  dsimp only
  rw [if_neg (by rw [hnotComment]; exact Bool.false_ne_true), if_neg hne, hindent,
    if_neg fun hdeep => Nat.not_lt_zero _ hdeep.2, hheader, option_line h htrimmed]
  have hopened : ({ r with indent := 0 } : Reading).open? key l =
      some { ({ r with indent := 0 } : Reading).withCursect (r.cursect.put key [l]) with
        optname := some key } :=
    if_neg hopen
  rw [Option.bind_some, hopened, withCursect_indent]
  rfl

/-- A further line of a value. -/
theorem readLine_more (hkey : r.optname.isSome = true) (hindent : r.indent = 0) (hl : Trimmed l)
    (hcomment : isComment l = false) : r.readLine ('\t' :: l) = some (r.append l) := by
  have hstrip : strip ('\t' :: l) = l := by
    rw [strip_cons_of_isSpace (by decide), strip_of_trimmed hl]
  have hdeep : r.indent < (('\t' :: l).takeWhile isSpace).length := by
    rw [hindent, List.takeWhile_cons_of_pos (by decide), List.length_cons]
    omega
  unfold readLine
  dsimp only
  rw [hstrip, hcomment]
  by_cases hempty : l = []
  · rw [if_neg Bool.false_ne_true, if_pos hempty, hempty]
  · rw [if_neg Bool.false_ne_true, if_neg hempty, if_pos ⟨hkey, hdeep⟩]

/-- An empty line. -/
theorem readLine_blank : r.readLine [] = some (r.append []) := rfl

/-- A header. -/
theorem readLine_header {name : String} (h : name ≠ "") :
    r.readLine (('[' :: name.toList) ++ [']']) = { r with indent := 0 }.enter name := by
  have htrimmed : Trimmed (('[' :: name.toList) ++ [']']) := by
    constructor
    · intro c hc
      obtain rfl := Option.some.inj hc
      decide
    · intro c hc
      rw [List.getLast?_concat] at hc
      obtain rfl := Option.some.inj hc
      decide
  have hheader : header (('[' :: name.toList) ++ [']']) = some name.toList := by
    rw [List.cons_append, header, List.reverse_append, List.reverse_singleton, List.singleton_append,
      List.dropWhile_cons_of_neg (by decide), List.drop_one, List.tail_cons, List.reverse_reverse]
    exact if_neg (mt String.toList_eq_nil_iff.mp h)
  have hindent : ((('[' :: name.toList) ++ [']']).takeWhile isSpace).length = 0 := by
    rw [List.cons_append, List.takeWhile_cons_of_neg (by decide)]
    rfl
  have hnotComment : isComment (('[' :: name.toList) ++ [']']) = false := rfl
  unfold readLine
  dsimp only
  rw [strip_of_trimmed htrimmed, hnotComment, if_neg Bool.false_ne_true, if_neg nofun, hindent,
    if_neg fun hdeep => Nat.not_lt_zero _ hdeep.2, hheader]
  dsimp only
  rw [String.ofList_toList]

theorem append_inside {value : Lines} (h : r.sectname.isSome = true) :
    (r.inside (options.put key value) (some key)).append l =
      r.inside (options.put key (value ++ [l])) (some key) := by
  have hcursect := @cursect_inside _ (options.put key value) (some key) h
  have hget : (options.put key value).get key = some value := by rw [Map.get_put, if_pos rfl]
  have hput : (options.put key value).put key (value ++ [l]) = options.put key (value ++ [l]) :=
    Map.put_put
  have happend : (r.inside (options.put key value) (some key)).append l =
      (r.inside (options.put key value) (some key)).withCursect
        ((r.inside (options.put key value) (some key)).cursect.put key
          ((((r.inside (options.put key value) (some key)).cursect.get key).getD []) ++ [l])) := rfl
  rw [happend, hcursect, hget, Option.getD_some, hput]
  have hinside := @inside_inside r (options.put key value)
    (options.put key (value ++ [l])) (some key) (some key)
  rw [← hinside]
  unfold inside
  cases hs : r.sectname with
  | none => simp [withCursect, hs]
  | some s =>
    by_cases hdefault : s = defaultSection
    · simp [withCursect, hs, hdefault]
    · simp [withCursect, hs, hdefault]

/-- The further lines of a value. -/
theorem foldlM_more {value ls : Lines} (hsect : r.sectname.isSome = true)
    (h : ∀ l ∈ ls, Trimmed l ∧ isComment l = false) :
    (ls.map ('\t' :: ·)).foldlM readLine (r.inside (options.put key value) (some key)) =
      some (r.inside (options.put key (value ++ ls)) (some key)) := by
  induction ls generalizing value with
  | nil => rw [List.append_nil]; rfl
  | cons l ls ih =>
    obtain ⟨htrimmed, hcomment⟩ := h l List.mem_cons_self
    have hline := readLine_more (r := r.inside (options.put key value) (some key)) rfl rfl htrimmed
      hcomment
    rw [List.map_cons, List.foldlM_cons, hline, append_inside hsect, Option.bind_eq_bind,
      Option.bind_some, ih fun l' hl' => h l' (List.mem_cons_of_mem l hl'), List.append_assoc]
    rfl

/-- The lines of an option. -/
theorem foldlM_optionLines {x : String × String} (h : RegularOption x.1 x.2.toList)
    (hsect : r.sectname.isSome = true) (hget : r.cursect.get x.1 = none) :
    (optionLines x).foldlM readLine r =
      some (r.inside (r.cursect.put x.1 (x.2.toList.splitOn '\n')) (some x.1)) := by
  obtain ⟨l, ls, hls⟩ := List.exists_cons_of_ne_nil (List.splitOn_ne_nil '\n' x.2.toList)
  have hfirst := readLine_option (l := l) h (by rw [hls]; rfl) hsect hget
  have hmore : ∀ l' ∈ ls, Trimmed l' ∧ isComment l' = false := by
    intro l' hl'
    have hmem : l' ∈ x.2.toList.splitOn '\n' := by rw [hls]; exact List.mem_cons_of_mem l hl'
    exact ⟨h.regular.trimmed l' hmem, h.regular.noComment l' (by rw [hls]; exact hl')⟩
  unfold optionLines
  rw [hls]
  dsimp only
  rw [List.foldlM_cons, hfirst, Option.bind_eq_bind, Option.bind_some, foldlM_more hsect hmore]
  rfl

/-- The lines of options, one after the other. -/
theorem foldlM_options {l : List (String × String)} {o : Option String}
    (hsect : r.sectname.isSome = true) (h : ∀ x ∈ l, RegularOption x.1 x.2.toList)
    (hnodup : (l.map Prod.fst).Nodup) (hfresh : ∀ x ∈ l, options.get x.1 = none) :
    (l.flatMap optionLines).foldlM readLine (r.inside options o) =
      some (r.inside (options.putAll (l.map fun x => (x.1, x.2.toList.splitOn '\n')))
        ((l.getLast?.map Prod.fst).or o)) := by
  induction l generalizing options o with
  | nil => rfl
  | cons x l ih =>
    obtain ⟨hx, hl⟩ := List.nodup_cons.mp hnodup
    have hcursect := @cursect_inside _ options o hsect
    have hoption := foldlM_optionLines (r := r.inside options o) (h x List.mem_cons_self)
      (by rw [sectname_inside]; exact hsect) (by rw [hcursect]; exact hfresh x List.mem_cons_self)
    rw [hcursect, inside_inside] at hoption
    have hfresh' : ∀ y ∈ l, (options.put x.1 (x.2.toList.splitOn '\n')).get y.1 = none := by
      intro y hy
      have hne : y.1 ≠ x.1 := fun heq => hx (heq ▸ List.mem_map_of_mem hy)
      rw [Map.get_put, if_neg hne]
      exact hfresh y (List.mem_cons_of_mem x hy)
    rw [List.flatMap_cons, List.foldlM_append, hoption, Option.bind_eq_bind, Option.bind_some,
      ih (fun y hy => h y (List.mem_cons_of_mem x hy)) hl hfresh', List.getLast?_cons]
    cases l.getLast? with
    | none => rfl
    | some y => rfl

end Reading

/-! ## Joining -/

theorem join_splitOn {text : String} (h : RegularValue text.toList) :
    join (text.toList.splitOn '\n') = text := by
  rw [join, List.intercalate_splitOn, rstrip_of_last h.ends, String.ofList_toList]

/-- An empty line after a value changes nothing. -/
theorem join_blank {value : Lines} (h : value ≠ []) : join (value ++ [[]]) = join value := by
  have hintercalate : ['\n'].intercalate (value ++ [[]]) = ['\n'].intercalate value ++ ['\n'] := by
    induction value with
    | nil => exact absurd rfl h
    | cons l ls ih =>
      cases ls with
      | nil => simp
      | cons l' ls =>
        have hls := ih (List.cons_ne_nil l' ls)
        rw [List.cons_append] at hls
        rw [List.cons_append, List.cons_append, List.intercalate_cons_cons, hls,
          List.intercalate_cons_cons, List.append_assoc, List.append_assoc, List.append_assoc]
  rw [join, join, hintercalate, rstrip, List.reverse_append, List.reverse_singleton,
    List.singleton_append, List.dropWhile_cons_of_pos (by decide)]
  rfl

theorem mapValues_putAll {l : List (String × String)} {options : Map String Lines}
    (h : ∀ x ∈ l, RegularValue x.2.toList) :
    (options.putAll (l.map fun x => (x.1, x.2.toList.splitOn '\n'))).mapValues join =
      (options.mapValues join).putAll l := by
  induction l generalizing options with
  | nil => rfl
  | cons x l ih =>
    rw [List.map_cons, Map.putAll_cons, ih fun y hy => h y (List.mem_cons_of_mem x hy),
      Map.mapValues_put, join_splitOn (h x List.mem_cons_self)]
    rfl

/-! ## Sections and configurations -/

namespace Reading

variable {r : Reading} {name : String} {section_ : Map String String}

/-- The lines of the options of a section that was entered, and the empty line after them. -/
theorem foldlM_entered (hsect : r.sectname.isSome = true) (hinside : r.inside .empty none = r)
    (h : ∀ x ∈ section_.entries, RegularOption x.1 x.2.toList) : ∃ options o,
      (section_.entries.flatMap optionLines ++ [[]]).foldlM readLine r = some (r.inside options o) ∧
        options.mapValues join = section_ := by
  have hoptions := @foldlM_options r .empty _ none hsect h section_.nodup
    fun _ _ => rfl
  have hvalues := @mapValues_putAll _ .empty fun x hx => (h x hx).regular
  have hsection : (Map.empty : Map String String).putAll section_.entries = section_ :=
    Map.ofList_entries
  have hempty : (Map.empty : Map String Lines).mapValues join = .empty := rfl
  rw [hempty, hsection] at hvalues
  rw [hinside] at hoptions
  -- the empty line is appended to the last option, if there is one
  rcases List.eq_nil_or_concat section_.entries with hentries | ⟨init, x, hentries⟩
  · rw [hentries] at hoptions hvalues
    refine ⟨.empty, none, ?_, hvalues⟩
    rw [hentries, hinside]
    have hname : r.optname = none := by rw [← hinside]; rfl
    have happend : r.append [] = r := by rw [append, hname]
    rw [List.flatMap_nil, List.nil_append, List.foldlM_cons, readLine_blank, happend]
    rfl
  · rw [List.concat_eq_append] at hentries
    have hputAll : (Map.empty : Map String Lines).putAll
        (section_.entries.map fun x => (x.1, x.2.toList.splitOn '\n')) =
          (Map.empty.putAll (init.map fun x => (x.1, x.2.toList.splitOn '\n'))).put x.1
            (x.2.toList.splitOn '\n') := by
      rw [hentries, List.map_append, Map.putAll, List.foldl_append]
      rfl
    have hlast : (section_.entries.getLast?.map Prod.fst).or none = some x.1 := by
      rw [hentries, List.getLast?_concat]
      rfl
    rw [hputAll, hlast] at hoptions
    rw [hputAll, Map.mapValues_put] at hvalues
    refine ⟨(Map.empty.putAll (init.map fun x => (x.1, x.2.toList.splitOn '\n'))).put x.1
      (x.2.toList.splitOn '\n' ++ [[]]), some x.1, ?_, ?_⟩
    · rw [List.foldlM_append, hoptions, Option.bind_eq_bind, Option.bind_some, List.foldlM_cons,
        readLine_blank, append_inside hsect]
      rfl
    · rw [Map.mapValues_put, join_blank (List.splitOn_ne_nil _ _), hvalues]

/-- Right after the header of a new section. -/
def entered (r : Reading) (name : String) : Reading :=
  { r with sections := r.sections.put name .empty, sectname := some name, optname := none, indent := 0 }

/-- The lines of a section. -/
theorem foldlM_sectionLines (h : RegularSection name section_) (hdefault : name ≠ defaultSection)
    (hfresh : name ∉ r.sections.keys) : ∃ r',
      (sectionLines (name, section_)).foldlM readLine r = some r' ∧
        r'.toIni = ⟨r.toIni.defaults, r.toIni.sections.put name section_⟩ := by
  have henter : ({ r with indent := 0 } : Reading).enter name = some (r.entered name) := by
    rw [enter, if_neg hfresh, if_neg hdefault]
    rfl
  obtain ⟨options, o, hfold, hvalues⟩ := foldlM_entered (r := r.entered name) rfl
    (by simp [entered, inside, withCursect, hdefault, Map.put_put]) h.regular
  have hread : (sectionLines (name, section_)).foldlM readLine r =
      some ((r.entered name).inside options o) := by
    rw [sectionLines, List.foldlM_cons, readLine_header h.nonempty, henter]
    exact hfold
  refine ⟨_, hread, ?_⟩
  simp [entered, inside, withCursect, hdefault, toIni, Map.put_put, Map.mapValues_put, hvalues]

/-- The lines of the default section, first in the file. -/
theorem foldlM_defaultLines (h : ∀ x ∈ section_.entries, RegularOption x.1 x.2.toList) : ∃ r',
      (sectionLines (defaultSection, section_)).foldlM readLine start = some r' ∧
        r'.toIni = ⟨section_, .empty⟩ := by
  obtain ⟨options, o, hfold, hvalues⟩ := foldlM_entered
    (r := { start with sectname := some defaultSection }) rfl rfl h
  have hread : (sectionLines (defaultSection, section_)).foldlM readLine start =
      some (({ start with sectname := some defaultSection } : Reading).inside options o) := by
    have hne : defaultSection ≠ "" := by decide
    rw [sectionLines, List.foldlM_cons, readLine_header hne]
    exact hfold
  exact ⟨_, hread, congrArg₂ Ini.mk hvalues rfl⟩

theorem keys_toIni : r.toIni.sections.keys = r.sections.keys := by
  simp [toIni, Map.keys, Map.mapValues]

/-- The lines of sections, one after the other. -/
theorem foldlM_sections {l : List (String × Map String String)}
    (h : ∀ x ∈ l, RegularSection x.1 x.2 ∧ x.1 ≠ defaultSection) (hnodup : (l.map Prod.fst).Nodup)
    (hfresh : ∀ x ∈ l, x.1 ∉ r.toIni.sections.keys) : ∃ r',
      (l.flatMap sectionLines).foldlM readLine r = some r' ∧
        r'.toIni = ⟨r.toIni.defaults, r.toIni.sections.putAll l⟩ := by
  induction l generalizing r with
  | nil => exact ⟨r, rfl, rfl⟩
  | cons x l ih =>
    obtain ⟨hx, hl⟩ := List.nodup_cons.mp hnodup
    obtain ⟨hregular, hdefault⟩ := h x List.mem_cons_self
    obtain ⟨r₁, hfold, hini⟩ := foldlM_sectionLines (r := r) hregular hdefault
      (keys_toIni (r := r) ▸ hfresh x List.mem_cons_self)
    have hfresh' : ∀ y ∈ l, y.1 ∉ r₁.toIni.sections.keys := by
      intro y hy
      have hne : y.1 ≠ x.1 := fun heq => hx (heq ▸ List.mem_map_of_mem hy)
      rw [hini, Map.mem_keys, Map.get_put, if_neg hne, ← Map.mem_keys]
      exact hfresh y (List.mem_cons_of_mem x hy)
    obtain ⟨r₂, hfold', hini'⟩ := ih (fun y hy => h y (List.mem_cons_of_mem x hy)) hl hfresh'
    refine ⟨r₂, ?_, ?_⟩
    · rw [List.flatMap_cons, List.foldlM_append, hfold]
      exact hfold'
    · rw [hini', hini]
      rfl

end Reading

/-- The lines of a configuration that a file holds have no line ends. -/
theorem oneLine_sectionLines {x : String × Map String String}
    (hname : '\n' ∉ x.1.toList ∧ '\r' ∉ x.1.toList)
    (h : ∀ y ∈ x.2.entries, RegularOption y.1 y.2.toList) :
    ∀ l ∈ sectionLines x, '\n' ∉ l ∧ '\r' ∉ l := by
  have hoption : ∀ y ∈ x.2.entries, ∀ l ∈ optionLines y, '\n' ∉ l ∧ '\r' ∉ l := by
    intro y hy l hl
    have hregular := h y hy
    have hpieces : ∀ p ∈ y.2.toList.splitOn '\n', '\n' ∉ p ∧ '\r' ∉ p := by
      intro p hp
      exact ⟨fun hmem => (of_mem_splitOn p hp '\n' hmem).2 rfl,
        fun hmem => hregular.regular.noReturn (of_mem_splitOn p hp '\r' hmem).1⟩
    unfold optionLines at hl
    obtain ⟨p, ps, hps⟩ := List.exists_cons_of_ne_nil (List.splitOn_ne_nil '\n' y.2.toList)
    rw [hps] at hl hpieces
    dsimp only at hl
    rcases List.mem_cons.mp hl with rfl | hl
    · obtain ⟨hn, hr⟩ := hpieces p List.mem_cons_self
      simp [hregular.oneLine.1, hregular.oneLine.2, hn, hr]
    · obtain ⟨p', hp', rfl⟩ := List.mem_map.mp hl
      obtain ⟨hn, hr⟩ := hpieces p' (List.mem_cons_of_mem p hp')
      simp [hn, hr]
  intro l hl
  unfold sectionLines at hl
  rcases List.mem_cons.mp hl with rfl | hl
  · simp [hname.1, hname.2]
  · rcases List.mem_append.mp hl with hl | hl
    · obtain ⟨y, hy, hl⟩ := List.mem_flatMap.mp hl
      exact hoption y hy l hl
    · rw [List.mem_singleton.mp hl]
      exact ⟨List.not_mem_nil, List.not_mem_nil⟩

/-- What is written of a configuration that a file holds is read back. -/
theorem read_write {p : Ini} (h : Regular p) : read (write p) = some p := by
  have hsections : p.sections.entries.flatMap writeSection =
      (p.sections.entries.flatMap sectionLines).flatMap fun l => l ++ ['\n'] := by
    rw [List.flatMap_assoc]
    exact List.flatMap_congr fun x _ => writeSection_eq x
  have hlines : ∀ l ∈ p.sections.entries.flatMap sectionLines, '\n' ∉ l ∧ '\r' ∉ l := by
    intro l hl
    obtain ⟨x, hx, hl⟩ := List.mem_flatMap.mp hl
    have hregular := h.sections x hx
    exact oneLine_sectionLines hregular.oneLine hregular.regular l hl
  have hdefault : ∀ x ∈ p.sections.entries, RegularSection x.1 x.2 ∧ x.1 ≠ defaultSection := by
    intro x hx
    refine ⟨h.sections x hx, fun heq => h.noDefault ?_⟩
    rw [← heq]
    exact List.mem_map_of_mem hx
  have hkeys : ∀ r : Reading, r.toIni.sections = .empty →
      ∀ x ∈ p.sections.entries, x.1 ∉ r.toIni.sections.keys := by
    intro r hr x _
    rw [hr]
    exact List.not_mem_nil
  have hall : Map.empty.putAll p.sections.entries = p.sections := Map.ofList_entries
  rw [read, write, String.toList_ofList]
  by_cases hempty : p.defaults.entries = []
  · obtain ⟨r, hfold, hini⟩ := Reading.foldlM_sections (r := .start) hdefault p.sections.nodup
      (hkeys .start rfl)
    have hdefaults : p.defaults = .empty := Map.eq_of_entries hempty
    rw [if_pos hempty, List.nil_append, hsections, lines_flatMap hlines, hfold, Option.map_some, hini]
    exact congrArg some (congrArg₂ Ini.mk hdefaults.symm hall)
  · obtain ⟨r₀, hfold₀, hini₀⟩ := Reading.foldlM_defaultLines h.defaults
    obtain ⟨r, hfold, hini⟩ := Reading.foldlM_sections (r := r₀) hdefault p.sections.nodup
      (hkeys r₀ (by rw [hini₀]))
    have hname : '\n' ∉ defaultSection.toList ∧ '\r' ∉ defaultSection.toList := by decide
    have hlines₀ := oneLine_sectionLines (x := (defaultSection, p.defaults)) hname h.defaults
    rw [if_neg hempty, writeSection_eq, hsections, ← List.flatMap_append,
      lines_flatMap fun l hl => (List.mem_append.mp hl).elim (hlines₀ l) (hlines l),
      List.foldlM_append, hfold₀, Option.bind_eq_bind, Option.bind_some, hfold, Option.map_some, hini,
      hini₀]
    exact congrArg some (congrArg (Ini.mk p.defaults) hall)

end Ini

end JenKea
