import Mathlib.Data.List.Induction
import Mathlib.Data.List.TakeWhile
import JenKea.Lib.IniRoundTrip

/-!
# What is read is what a file holds

A configuration that was read from a file can be written to one: every name and value that the reader
makes is regular, whatever the file has. With the round trip, writing what was read and reading it again
gives the same configuration.
-/

namespace JenKea

open Text

namespace Ini

/-! ## Characters -/

/-- Only the capitals of ASCII change in lower case, and become small letters. -/
theorem toLower_cases (c : Char) :
    c.toLower = c ∨ (65 ≤ c.toNat ∧ c.toNat ≤ 90 ∧ c.toLower.toNat = c.toNat + 32) := by
  unfold Char.toLower
  split_ifs with h
  · right
    have hlow : 65 ≤ c.toNat := h.1
    have hhigh : c.toNat ≤ 90 := h.2
    refine ⟨hlow, hhigh, ?_⟩
    have hadd : (c.val + ('a'.val - 'A'.val)).toNat = c.val.toNat + 32 := by
      rw [UInt32.toNat_add]
      have hval : c.val.toNat = c.toNat := rfl
      have hdiff : ('a'.val - 'A'.val).toNat = 32 := by decide
      rw [hdiff]
      omega
    exact hadd
  · exact .inl rfl

/-- A character that is no letter stays what it is in lower case, and none becomes it. -/
theorem toLower_eq_iff {c d : Char} (hd : d.toNat < 65 ∨ (90 < d.toNat ∧ d.toNat < 97)) :
    c.toLower = d ↔ c = d := by
  constructor
  · rintro rfl
    rcases toLower_cases c with h | ⟨hlow, hhigh, hnat⟩
    · exact h.symm
    · omega
  · rintro rfl
    rcases toLower_cases c with h | ⟨hlow, hhigh, hnat⟩
    · exact h
    · omega

theorem toLower_toLower (c : Char) : c.toLower.toLower = c.toLower := by
  rcases toLower_cases c with h | ⟨hlow, hhigh, hnat⟩
  · rw [h, h]
  · rcases toLower_cases c.toLower with h | ⟨hlow', hhigh', -⟩
    · exact h
    · omega

theorem isSpace_toLower (c : Char) : isSpace c.toLower = isSpace c := by
  rcases toLower_cases c with h | ⟨hlow, hhigh, hnat⟩
  · rw [h]
  · have hc := isSpace_of_printable (c := c) (by omega) (by omega)
    have hlower := isSpace_of_printable (c := c.toLower) (by omega) (by omega)
    rw [hc, hlower]

/-! ## Trimmed lines -/

theorem mem_of_mem_strip {cs : List Char} {c : Char} (h : c ∈ strip cs) : c ∈ cs := by
  have hrev := List.mem_reverse.mp h
  have hlstrip := List.mem_reverse.mp ((List.dropWhile_sublist _).subset hrev)
  exact (List.dropWhile_sublist _).subset hlstrip

/-- What is left after the characters of a kind at the front does not start with one. -/
theorem head_dropWhile {q : Char → Bool} {cs : List Char} {c : Char}
    (h : (cs.dropWhile q).head? = some c) : q c = false := by
  have hne : cs.dropWhile q ≠ [] := by
    intro hnil
    rw [hnil] at h
    cases h
  have hhead : (cs.dropWhile q).head hne = c := by
    rw [List.head?_eq_some_head hne] at h
    exact Option.some.inj h
  have hnot := List.head_dropWhile_not q hne
  rwa [hhead] at hnot

theorem last_rstrip {cs : List Char} {c : Char} (h : (rstrip cs).getLast? = some c) :
    isSpace c = false := by
  rw [rstrip, List.getLast?_reverse] at h
  exact head_dropWhile h

theorem trimmed_strip (cs : List Char) : Trimmed (strip cs) := by
  refine ⟨fun c hc => ?_, fun c hc => last_rstrip hc⟩
  -- the first character of a text without white space at its front stands before what goes at its end
  have hlead : strip cs <+: lstrip cs := by
    have hsuffix := List.dropWhile_suffix (l := (lstrip cs).reverse) isSpace
    have hrev := List.reverse_prefix.mpr hsuffix
    rwa [List.reverse_reverse] at hrev
  obtain ⟨rest, hrest⟩ := hlead
  refine @head_dropWhile isSpace cs _ ?_
  change (lstrip cs).head? = some c
  rw [← hrest, List.head?_append, hc]
  rfl

/-- A line of a value. -/
structure Plain (l : List Char) : Prop where
  oneLine : '\n' ∉ l ∧ '\r' ∉ l
  trimmed : Trimmed l

theorem plain_strip {l : List Char} (h : '\n' ∉ l ∧ '\r' ∉ l) : Plain (strip l) :=
  ⟨⟨fun hmem => h.1 (mem_of_mem_strip hmem), fun hmem => h.2 (mem_of_mem_strip hmem)⟩, trimmed_strip l⟩

/-! ## Lines of a file -/

theorem notMem_universal (cs : List Char) : '\r' ∉ universal cs := by
  fun_induction universal cs with
  | case1 => exact List.not_mem_nil
  | case2 cs ih => simp [ih]
  | case3 cs hne ih => simp [ih]
  | case4 c cs hnot hne ih =>
    rw [List.mem_cons, not_or]
    exact ⟨fun heq => hne heq.symm, ih⟩

theorem oneLine_of_mem_lines {text l : List Char} (h : l ∈ lines text) : '\n' ∉ l ∧ '\r' ∉ l := by
  have hpiece : l ∈ (universal text).splitOn '\n' := by
    unfold lines at h
    dsimp only at h
    split_ifs at h
    · exact (List.dropLast_sublist _).subset h
    · exact h
  have hof := of_mem_splitOn l hpiece
  exact ⟨fun hmem => (hof '\n' hmem).2 rfl, fun hmem => notMem_universal text (hof '\r' hmem).1⟩

/-! ## Options -/

/-- An option, by the lines of its value so far. -/
structure RawOption (key : String) (value : Lines) : Prop where
  nonempty : key ≠ ""
  plain : Plain key.toList
  noComment : isComment key.toList = false
  noDelimiter : ∀ c ∈ key.toList, isDelimiter c = false
  lower : key.toLower = key
  lines : value ≠ []
  noHeader : header (strip (key.toList ++ " = ".toList ++ value.headD [])) = none
  plainLines : ∀ l ∈ value, Plain l
  plainTail : ∀ l ∈ value.tail, isComment l = false

theorem header_eq_none {cs : List Char} (h : ∀ rest, cs = '[' :: rest → ']' ∉ rest.drop 1) :
    header cs = none := by
  unfold header
  split
  · next rest =>
    have hname : ((rest.reverse.dropWhile (· ≠ ']')).drop 1).reverse = [] := by
      cases rest with
      | nil => rfl
      | cons c rest =>
        have hno : ∀ d ∈ rest.reverse, decide (d ≠ ']') = true := by
          intro d hd
          refine decide_eq_true fun heq => h (c :: rest) rfl ?_
          rw [← heq]
          exact List.mem_reverse.mp hd
        rw [List.reverse_cons, List.dropWhile_append_of_pos hno, List.dropWhile_cons]
        split_ifs <;> rfl
    dsimp only
    rw [if_pos hname]
  · rfl

theorem of_header_eq_none {rest : List Char} (h : header ('[' :: rest) = none) :
    ']' ∉ rest.drop 1 := by
  intro hmem
  cases rest with
  | nil => cases hmem
  | cons c rest =>
    have hne : rest.reverse.dropWhile (· ≠ ']') ≠ [] := by
      intro hnil
      have hall := List.dropWhile_eq_nil_iff.mp hnil ']' (List.mem_reverse.mpr hmem)
      exact absurd hall (by decide)
    obtain ⟨d, ds, hds⟩ := List.exists_cons_of_ne_nil hne
    have hempty : (rest.reverse.dropWhile (· ≠ ']')).isEmpty = false := by rw [hds]; rfl
    have hbody : header ('[' :: c :: rest) =
        if ((((c :: rest).reverse.dropWhile (· ≠ ']')).drop 1).reverse) = [] then none
        else some (((c :: rest).reverse.dropWhile (· ≠ ']')).drop 1).reverse := rfl
    rw [hbody, List.reverse_cons, List.dropWhile_append, hempty, if_neg Bool.false_ne_true, hds] at h
    simp at h

/-- A name in a header is not empty, and stands in it. -/
theorem of_header {cs name : List Char} (h : header cs = some name) : name ≠ [] ∧ ∀ c ∈ name, c ∈ cs := by
  unfold header at h
  split at h
  · next rest =>
    dsimp only at h
    split_ifs at h with hempty
    obtain rfl := Option.some.inj h
    refine ⟨hempty, fun c hc => List.mem_cons_of_mem _ ?_⟩
    have hdrop := (List.drop_sublist 1 _).subset (List.mem_reverse.mp hc)
    exact List.mem_reverse.mp ((List.dropWhile_sublist _).subset hdrop)
  · cases h

theorem toList_lower (cs : List Char) : (String.ofList cs).toLower.toList = cs.map Char.toLower := by
  have hmap : (String.ofList cs).toLower.toList = (String.ofList cs).toList.map Char.toLower :=
    String.toList_map
  rw [hmap, String.toList_ofList]

/-- An option line opens an option. -/
theorem rawOption_of_option {line : List Char} {key : String} {value : List Char}
    (hline : '\n' ∉ line ∧ '\r' ∉ line) (hcomment : isComment (strip line) = false)
    (hheader : header (strip line) = none) (hoption : option (strip line) = some (key, value))
    (hkey : key ≠ "") : RawOption key [value] := by
  obtain ⟨⟨hn, hr⟩, htrimmed⟩ := plain_strip hline
  generalize strip line = v at hcomment hheader hoption hn hr htrimmed
  -- the line is the key, white space, the sign and the value
  obtain ⟨d, rest, hdrop⟩ : ∃ d rest, v.dropWhile (fun c => !isDelimiter c) = d :: rest := by
    refine List.exists_cons_of_ne_nil fun hnil => ?_
    unfold option at hoption
    rw [hnil] at hoption
    cases hoption
  obtain ⟨name, hname⟩ : ∃ name, name = rstrip (v.takeWhile fun c => !isDelimiter c) := ⟨_, rfl⟩
  have hpair : (String.ofList name).toLower = key ∧ strip rest = value := by
    unfold option at hoption
    rw [hdrop] at hoption
    dsimp only at hoption
    rw [← hname] at hoption
    exact Prod.mk.injEq .. ▸ Option.some.inj hoption
  obtain ⟨hlower, hvalue⟩ := hpair
  have hchars : key.toList = name.map Char.toLower := by rw [← hlower, toList_lower]
  have hlead : name <+: v.takeWhile fun c => !isDelimiter c := by
    have hsuffix := List.dropWhile_suffix (l := (v.takeWhile fun c => !isDelimiter c).reverse) isSpace
    have hrev := List.reverse_prefix.mpr hsuffix
    rwa [List.reverse_reverse, ← rstrip, ← hname] at hrev
  obtain ⟨space, hspace⟩ := hlead
  have hv : v = name ++ (space ++ d :: rest) := by
    rw [← List.append_assoc, hspace, ← hdrop, List.takeWhile_append_dropWhile]
  obtain ⟨c, cs, hcs⟩ : ∃ c cs, name = c :: cs := by
    refine List.exists_cons_of_ne_nil fun hnil => hkey ?_
    rw [← String.toList_eq_nil_iff, hchars, hnil]
    rfl
  have hhead : v.head? = some c := by rw [hv, hcs]; rfl
  have hrest : ∀ e ∈ value, e ∈ v := by
    intro e he
    rw [← hvalue] at he
    rw [hv]
    exact List.mem_append_right _ (List.mem_append_right _ (List.mem_cons_of_mem _ (mem_of_mem_strip he)))
  have hnameMem : ∀ e ∈ name, e ∈ v := fun e he => hv ▸ List.mem_append_left _ he
  have hsame : ∀ e : Char, (e.toNat < 65 ∨ (90 < e.toNat ∧ e.toNat < 97)) →
      (e ∈ key.toList ↔ e ∈ name) := by
    intro e he
    rw [hchars, List.mem_map]
    constructor
    · rintro ⟨f, hf, hfe⟩
      rwa [← (toLower_eq_iff he).mp hfe]
    · intro hmem
      exact ⟨e, hmem, (toLower_eq_iff he).mpr rfl⟩
  have hplain : Plain key.toList := by
    refine ⟨⟨fun hmem => hn (hnameMem _ ((hsame '\n' (.inl (by decide))).mp hmem)),
      fun hmem => hr (hnameMem _ ((hsame '\r' (.inl (by decide))).mp hmem))⟩, fun e he => ?_,
      fun e he => ?_⟩
    · rw [hchars, hcs] at he
      obtain rfl := Option.some.inj he
      rw [isSpace_toLower]
      exact htrimmed.1 c hhead
    · rw [hchars, List.getLast?_map, Option.map_eq_some_iff] at he
      obtain ⟨f, hf, rfl⟩ := he
      rw [isSpace_toLower]
      exact last_rstrip (hname ▸ hf)
  have hplainValue : Plain value := by
    refine ⟨⟨fun hmem => hn (hrest _ hmem), fun hmem => hr (hrest _ hmem)⟩, ?_⟩
    rw [← hvalue]
    exact trimmed_strip rest
  refine ⟨hkey, hplain, ?_, ?_, ?_, by simp, ?_, ?_, (by rintro _ ⟨⟩)⟩
  · -- a comment line is none of an option
    have hfirst : ∀ e : Char, (e.toNat < 65 ∨ (90 < e.toNat ∧ e.toNat < 97)) →
        (key.toList.head? = some e ↔ v.head? = some e) := by
      intro e he
      rw [hchars, hcs, hhead, List.map_cons, List.head?_cons, Option.some.injEq, Option.some.injEq,
        toLower_eq_iff he]
    unfold isComment at hcomment ⊢
    rw [decide_eq_decide.mpr (hfirst '#' (.inl (by decide))),
      decide_eq_decide.mpr (hfirst ';' (.inl (by decide)))]
    exact hcomment
  · intro e he
    obtain ⟨f, hf, rfl⟩ := List.mem_map.mp (hchars ▸ he)
    have hnot : isDelimiter f = false := by
      have hmem : f ∈ v.takeWhile fun c => !isDelimiter c := hspace ▸ List.mem_append_left _ hf
      have hall := List.all_takeWhile (p := fun c => !isDelimiter c) (l := v)
      simpa using List.all_eq_true.mp hall f hmem
    unfold isDelimiter at hnot ⊢
    rw [decide_eq_decide.mpr (toLower_eq_iff (d := '=') (.inl (by decide))),
      decide_eq_decide.mpr (toLower_eq_iff (d := ':') (.inl (by decide)))]
    exact hnot
  · have hkeyOf : key = String.ofList (name.map Char.toLower) := by
      rw [← hchars, String.ofList_toList]
    have htwice : (String.ofList (name.map Char.toLower)).toLower.toList = key.toList := by
      rw [toList_lower, List.map_map, hchars]
      exact List.map_congr_left fun e _ => toLower_toLower e
    rw [← hkeyOf] at htwice
    exact String.toList_injective htwice
  · rw [List.headD_cons, strip_line (by rw [hchars, hcs]; exact List.cons_ne_nil _ _) hplain.trimmed
      hplainValue.trimmed, hchars, hcs, List.map_cons]
    refine header_eq_none fun rest' hrest' hmem => ?_
    obtain ⟨hc, rfl⟩ := List.cons.inj hrest'
    have hc' : c = '[' := (toLower_eq_iff (d := '[') (.inr (by decide))).mp hc
    rw [hv, hcs, hc', List.cons_append] at hheader
    have hclosed := of_header_eq_none hheader
    have hvalueMem : ']' ∈ value → ']' ∈ (cs ++ (space ++ d :: rest)).drop 1 := by
      intro hmem'
      have hclose : ']' ∈ rest := mem_of_mem_strip (hvalue ▸ hmem')
      cases cs with
      | nil =>
        cases space with
        | nil => exact hclose
        | cons e space => exact List.mem_append_right _ (List.mem_cons_of_mem _ hclose)
      | cons e cs =>
        exact List.mem_append_right _ (List.mem_append_right _ (List.mem_cons_of_mem _ hclose))
    have hsecond : ']' ∈ (if value = [] then [] else ' ' :: value) → ']' ∈ value := by
      split_ifs with hempty
      · exact fun hmem' => absurd hmem' List.not_mem_nil
      · intro hmem'
        rcases List.mem_cons.mp hmem' with heq | hmem'
        · exact absurd heq (by decide)
        · exact hmem'
    cases cs with
    | nil =>
      rcases List.mem_cons.mp hmem with heq | hmem
      · exact absurd heq (by decide)
      · exact hclosed (hvalueMem (hsecond hmem))
    | cons e cs =>
      rcases List.mem_append.mp hmem with hmem | hmem
      · obtain ⟨f, hf, hfe⟩ := List.mem_map.mp hmem
        rw [(toLower_eq_iff (d := ']') (.inr (by decide))).mp hfe] at hf
        exact hclosed (List.mem_append_left _ hf)
      · rcases List.mem_cons.mp hmem with heq | hmem
        · exact absurd heq (by decide)
        · rcases List.mem_cons.mp hmem with heq | hmem
          · exact absurd heq (by decide)
          · exact hclosed (hvalueMem (hsecond hmem))
  · intro l hl
    rw [List.mem_singleton.mp hl]
    exact hplainValue

/-- A further line goes with an option. -/
theorem RawOption.append {key : String} {value : Lines} {l : List Char} (h : RawOption key value)
    (hl : Plain l) (hcomment : isComment l = false) : RawOption key (value ++ [l]) := by
  obtain ⟨first, rest, hvalue⟩ := List.exists_cons_of_ne_nil h.lines
  have hhead : (value ++ [l]).headD [] = value.headD [] := by rw [hvalue]; rfl
  have htail : (value ++ [l]).tail = value.tail ++ [l] := by rw [hvalue]; rfl
  refine { h with lines := by simp, noHeader := hhead ▸ h.noHeader, plainLines := ?_, plainTail := ?_ }
  · intro l' hl'
    rcases List.mem_append.mp hl' with hl' | hl'
    · exact h.plainLines l' hl'
    · rw [List.mem_singleton.mp hl']
      exact hl
  · rw [htail]
    intro l' hl'
    rcases List.mem_append.mp hl' with hl' | hl'
    · exact h.plainTail l' hl'
    · rw [List.mem_singleton.mp hl']
      exact hcomment

theorem intercalate_concat {value : Lines} {l : List Char} (h : value ≠ []) :
    ['\n'].intercalate (value ++ [l]) = ['\n'].intercalate value ++ '\n' :: l := by
  induction value with
  | nil => exact absurd rfl h
  | cons first rest ih =>
    cases rest with
    | nil => simp
    | cons second rest =>
      have hrest := ih (List.cons_ne_nil second rest)
      rw [List.cons_append] at hrest
      rw [List.cons_append, List.cons_append, List.intercalate_cons_cons, hrest,
        List.intercalate_cons_cons, List.append_assoc, List.append_assoc, List.append_assoc]

theorem mem_intercalate {value : Lines} {c : Char} (h : c ∈ ['\n'].intercalate value) :
    c = '\n' ∨ ∃ l ∈ value, c ∈ l := by
  induction value using List.reverseRecOn with
  | nil => cases h
  | append_singleton value l ih =>
    by_cases hne : value = []
    · rw [hne, List.nil_append, List.intercalate_singleton] at h
      exact .inr ⟨l, by simp, h⟩
    · rw [intercalate_concat hne] at h
      rcases List.mem_append.mp h with h | h
      · rcases ih h with h | ⟨l', hl', hc⟩
        · exact .inl h
        · exact .inr ⟨l', List.mem_append_left _ hl', hc⟩
      · rcases List.mem_cons.mp h with h | h
        · exact .inl h
        · exact .inr ⟨l, by simp, h⟩

/-- What is left of lines when they are joined: the empty ones at the end go. -/
theorem exists_rstrip {value : Lines} (hne : value ≠ []) (h : ∀ l ∈ value, Trimmed l) :
    ∃ kept, kept ≠ [] ∧ kept <+: value ∧
      rstrip (['\n'].intercalate value) = ['\n'].intercalate kept := by
  induction value using List.reverseRecOn with
  | nil => exact absurd rfl hne
  | append_singleton value l ih =>
    have hl := h l (by simp)
    by_cases hvalue : value = []
    · refine ⟨[l], by simp, by rw [hvalue]; exact List.prefix_refl _, ?_⟩
      rw [hvalue, List.nil_append, List.intercalate_singleton, rstrip_of_last hl.2]
    · rw [intercalate_concat hvalue]
      by_cases hempty : l = []
      · obtain ⟨kept, hkept, hlead, hrstrip⟩ := ih hvalue fun l' hl' => h l' (List.mem_append_left _ hl')
        refine ⟨kept, hkept, hlead.trans (List.prefix_append _ _), ?_⟩
        rw [hempty, rstrip, List.reverse_append, List.reverse_singleton, List.singleton_append,
          List.dropWhile_cons_of_pos (by decide)]
        exact hrstrip
      · refine ⟨value ++ [l], by simp, List.prefix_refl _, ?_⟩
        rw [intercalate_concat hvalue]
        refine rstrip_of_last fun c hc => hl.2 c ?_
        have hd := List.getLast?_eq_some_getLast hempty
        rw [← hc, List.getLast?_append, List.getLast?_cons, hd]
        rfl

/-- The lines of an option, joined, are a regular value. -/
theorem RawOption.regular {key : String} {value : Lines} (h : RawOption key value) :
    RegularOption key (join value).toList := by
  obtain ⟨kept, hkept, ⟨rest, hrest⟩, hrstrip⟩ := exists_rstrip h.lines fun l hl => (h.plainLines l hl).trimmed
  have hmem : ∀ l ∈ kept, l ∈ value := fun l hl => hrest ▸ List.mem_append_left _ hl
  have hjoin : (join value).toList = ['\n'].intercalate kept := by
    rw [join, String.toList_ofList, hrstrip]
  have hsplit : (['\n'].intercalate kept).splitOn '\n' = kept :=
    List.splitOn_intercalate '\n' (fun l hl => (h.plainLines l (hmem l hl)).oneLine.1) hkept
  obtain ⟨first, tail, hfirst⟩ := List.exists_cons_of_ne_nil hkept
  have hvalue : value = first :: (tail ++ rest) := by rw [← hrest, hfirst]; rfl
  rw [hjoin]
  refine ⟨h.nonempty, h.plain.oneLine, h.plain.trimmed, h.noComment, h.noDelimiter, h.lower, ?_, ?_, ?_,
    ?_, ?_⟩
  · have hhead := h.noHeader
    rw [hvalue] at hhead
    rw [hsplit, hfirst]
    exact hhead
  · intro hreturn
    rcases mem_intercalate hreturn with heq | ⟨l, hl, hreturn⟩
    · exact absurd heq (by decide)
    · exact (h.plainLines l (hmem l hl)).oneLine.2 hreturn
  · rw [hsplit]
    exact fun l hl => (h.plainLines l (hmem l hl)).trimmed
  · rw [hsplit, hfirst]
    intro l hl
    refine h.plainTail l ?_
    rw [hvalue]
    exact List.mem_append_left _ hl
  · rw [← hrstrip]
    exact fun c hc => last_rstrip hc

/-! ## What has been read -/

/-- The options of a section can be written. -/
def RawOptions (options : Map String Lines) : Prop :=
  ∀ key value, options.get key = some value → RawOption key value

/-- What has been read so far can be written, and the reader is in a section and an option of it. -/
structure Reading.Sound (r : Reading) : Prop where
  defaults : RawOptions r.defaults
  sections : ∀ name options, r.sections.get name = some options →
    name ≠ "" ∧ ('\n' ∉ name.toList ∧ '\r' ∉ name.toList) ∧ name ≠ defaultSection ∧ RawOptions options
  inSection : ∀ s, r.sectname = some s → s ≠ defaultSection → (r.sections.get s).isSome = true
  inOption : ∀ o, r.optname = some o → r.sectname.isSome = true ∧ (r.cursect.get o).isSome = true

namespace Reading

variable {r r' : Reading} {options : Map String Lines} {key name : String} {l : List Char}

theorem Sound.cursect (h : r.Sound) : RawOptions r.cursect := by
  unfold Reading.cursect
  split
  · exact fun key value hget => by cases hget
  · next s hs =>
    split_ifs with hdefault
    · exact h.defaults
    · cases hget : r.sections.get s with
      | none => exact fun key value hget => by cases hget
      | some options => exact (h.sections s options hget).2.2.2

/-- The options of the section that the reader is in, replaced by ones that can be written. -/
theorem Sound.inside (h : r.Sound) (hsect : r.sectname.isSome = true) (hoptions : RawOptions options)
    (hkey : (options.get key).isSome = true) {n : ℕ} :
    Sound { r.withCursect options with optname := some key, indent := n } := by
  have hcursect := @cursect_withCursect _ options hsect
  obtain ⟨s, hs⟩ := Option.isSome_iff_exists.mp hsect
  have hopen : ∀ o, some key = some o → (r.withCursect options).sectname.isSome = true ∧
      ((r.withCursect options).cursect.get o).isSome = true := by
    intro o ho
    obtain rfl := Option.some.inj ho
    rw [sectname_withCursect, hcursect]
    exact ⟨hsect, hkey⟩
  by_cases hdefault : s = defaultSection
  · have heq : r.withCursect options = { r with defaults := options } := by
      rw [withCursect, hs]
      exact if_pos hdefault
    refine ⟨?_, ?_, ?_, hopen⟩
    · rw [heq]
      exact hoptions
    · rw [heq]
      exact h.sections
    · rw [heq]
      exact h.inSection
  · have heq : r.withCursect options = { r with sections := r.sections.put s options } := by
      rw [withCursect, hs]
      exact if_neg hdefault
    obtain ⟨old, hold⟩ := Option.isSome_iff_exists.mp (h.inSection s hs hdefault)
    obtain ⟨hne, hline, hnot, -⟩ := h.sections s old hold
    refine ⟨?_, ?_, ?_, hopen⟩
    · rw [heq]
      exact h.defaults
    · rw [heq]
      intro name options' hget
      rw [Map.get_put] at hget
      split_ifs at hget with hname
      · obtain rfl := Option.some.inj hget
        exact ⟨hname ▸ hne, hname ▸ hline, hname ▸ hnot, hoptions⟩
      · exact h.sections name options' hget
    · rw [heq]
      intro s' hs' hdefault'
      rw [Map.get_put]
      split_ifs
      · rfl
      · exact h.inSection s' hs' hdefault'

/-- A line appended to the value of an option. -/
theorem Sound.append (h : r.Sound) (hl : Plain l) (hcomment : isComment l = false) : (r.append l).Sound := by
  cases ho : r.optname with
  | none =>
    have heq : r.append l = r := by rw [Reading.append, ho]
    rw [heq]
    exact h
  | some o =>
    obtain ⟨hsect, hsome⟩ := h.inOption o ho
    obtain ⟨value, hvalue⟩ := Option.isSome_iff_exists.mp hsome
    have happend : r.append l = { r.withCursect (r.cursect.put o (value ++ [l])) with
        optname := some o, indent := r.indent } := by
      rw [Reading.append, ho]
      dsimp only
      rw [hvalue, Option.getD_some]
      obtain ⟨s, hs⟩ := Option.isSome_iff_exists.mp hsect
      rw [withCursect, hs]
      dsimp only
      rw [← ho]
      split_ifs <;> rfl
    rw [happend]
    refine h.inside hsect (fun key value' hget => ?_) (by rw [Map.get_put, if_pos rfl]; rfl)
    rw [Map.get_put] at hget
    split_ifs at hget with hkey
    · obtain rfl := Option.some.inj hget
      rw [hkey]
      exact (h.cursect o value hvalue).append hl hcomment
    · exact h.cursect key value' hget

/-- A header. -/
theorem Sound.enter (h : r.Sound) (hne : name ≠ "") (hline : '\n' ∉ name.toList ∧ '\r' ∉ name.toList)
    (henter : r.enter name = some r') : r'.Sound := by
  unfold Reading.enter at henter
  split_ifs at henter with hmem hdefault
  · obtain rfl := Option.some.inj henter
    refine ⟨h.defaults, h.sections, fun s hs hnot => ?_, (by rintro _ ⟨⟩)⟩
    obtain rfl := Option.some.inj hs
    exact absurd hdefault hnot
  · obtain rfl := Option.some.inj henter
    refine ⟨h.defaults, fun name' options hget => ?_, fun s hs hnot => ?_, (by rintro _ ⟨⟩)⟩
    · rw [Map.get_put] at hget
      split_ifs at hget with hname
      · obtain rfl := Option.some.inj hget
        exact ⟨hname ▸ hne, hname ▸ hline, hname ▸ hdefault, fun key value hget => by cases hget⟩
      · exact h.sections name' options hget
    · obtain rfl := Option.some.inj hs
      rw [Map.get_put, if_pos rfl]
      rfl

/-- An option line. -/
theorem Sound.open? (h : r.Sound) (hoption : key ≠ "" → RawOption key [l])
    (hopen : r.open? key l = some r') : r'.Sound := by
  unfold Reading.open? at hopen
  split_ifs at hopen with hbad
  obtain rfl := Option.some.inj hopen
  push Not at hbad
  obtain ⟨hsect, hkey, -⟩ := hbad
  have hsect' := Option.isSome_iff_ne_none.mpr hsect
  refine h.inside (n := (r.withCursect (r.cursect.put key [l])).indent) hsect' (fun key' value hget => ?_)
    (by rw [Map.get_put, if_pos rfl]; rfl)
  rw [Map.get_put] at hget
  split_ifs at hget with hkey'
  · obtain rfl := Option.some.inj hget
    rw [hkey']
    exact hoption hkey
  · exact h.cursect key' value hget

/-- A line of the file. -/
theorem Sound.readLine (h : r.Sound) (hline : '\n' ∉ l ∧ '\r' ∉ l) (hread : r.readLine l = some r') :
    r'.Sound := by
  have hplain := plain_strip hline
  unfold Reading.readLine at hread
  dsimp only at hread
  by_cases hcomment : isComment (strip l) = true
  · rw [if_pos hcomment] at hread
    obtain rfl := Option.some.inj hread
    exact h
  · rw [if_neg hcomment] at hread
    have hcomment' := Bool.eq_false_iff.mpr hcomment
    by_cases hempty : strip l = []
    · rw [if_pos hempty] at hread
      obtain rfl := Option.some.inj hread
      exact h.append (hempty ▸ hplain) rfl
    · rw [if_neg hempty] at hread
      split_ifs at hread with hdeep
      · obtain rfl := Option.some.inj hread
        exact h.append hplain hcomment'
      · -- the line stands on its own, whatever its indentation
        have hat : Sound { r with indent := (l.takeWhile isSpace).length } :=
          ⟨h.defaults, h.sections, h.inSection, h.inOption⟩
        cases hheader : header (strip l) with
        | some name =>
          rw [hheader] at hread
          have hname : name ≠ [] ∧ ∀ c ∈ name, c ∈ strip l := of_header hheader
          refine hat.enter ?_ ?_ hread
          · intro heq
            refine hname.1 ?_
            rw [← String.toList_ofList (l := name), heq]
            rfl
          · rw [String.toList_ofList]
            exact ⟨fun hmem => hplain.oneLine.1 (hname.2 _ hmem),
              fun hmem => hplain.oneLine.2 (hname.2 _ hmem)⟩
        | none =>
          rw [hheader] at hread
          obtain ⟨⟨key, value⟩, hoption, hopen⟩ := Option.bind_eq_some_iff.mp hread
          exact hat.open? (fun hkey => rawOption_of_option hline hcomment' hheader hoption hkey) hopen

theorem Sound.foldlM (h : r.Sound) {ls : Lines} (hlines : ∀ l ∈ ls, '\n' ∉ l ∧ '\r' ∉ l)
    (hread : ls.foldlM Reading.readLine r = some r') : r'.Sound := by
  induction ls generalizing r with
  | nil =>
    obtain rfl := Option.some.inj hread
    exact h
  | cons l ls ih =>
    rw [List.foldlM_cons] at hread
    obtain ⟨r₁, hfirst, hrest⟩ := Option.bind_eq_some_iff.mp hread
    exact ih (h.readLine (hlines l List.mem_cons_self) hfirst)
      (fun l' hl' => hlines l' (List.mem_cons_of_mem l hl')) hrest

theorem Sound.start : Sound .start := by
  refine ⟨?_, ?_, ?_, ?_⟩
  · intro key value hget
    cases hget
  · intro name options hget
    cases hget
  · exact nofun
  · exact nofun

end Reading

/-! ## What is read -/

theorem regular_toIni {r : Reading} (h : r.Sound) : Regular r.toIni := by
  have hoptions : ∀ {options : Map String Lines}, RawOptions options →
      ∀ x ∈ (options.mapValues join).entries, RegularOption x.1 x.2.toList := by
    intro options hraw x hx
    have hget := Map.mem_entries.mp hx
    rw [Map.get_mapValues] at hget
    obtain ⟨value, hvalue, hjoin⟩ := Option.map_eq_some_iff.mp hget
    rw [← hjoin]
    exact (hraw x.1 value hvalue).regular
  have hsection : ∀ x ∈ r.toIni.sections.entries, ∃ options,
      r.sections.get x.1 = some options ∧ options.mapValues join = x.2 := by
    intro x hx
    have hget := Map.mem_entries.mp hx
    rw [Reading.toIni, Map.get_mapValues] at hget
    exact Option.map_eq_some_iff.mp hget
  refine ⟨hoptions h.defaults, fun x hx => ?_, fun hmem => ?_⟩
  · obtain ⟨options, hget, hvalues⟩ := hsection x hx
    obtain ⟨hne, hline, -, hraw⟩ := h.sections x.1 options hget
    refine ⟨hne, hline, ?_⟩
    rw [← hvalues]
    exact hoptions hraw
  · obtain ⟨x, hx, hname⟩ := List.mem_map.mp hmem
    obtain ⟨options, hget, -⟩ := hsection x hx
    exact (h.sections x.1 options hget).2.2.1 hname

/-- What is read is what a file holds. -/
theorem regular_of_read {text : String} {p : Ini} (h : read text = some p) : Regular p := by
  obtain ⟨r, hr, rfl⟩ := Option.map_eq_some_iff.mp h
  exact regular_toIni (Reading.Sound.start.foldlM (fun _ hl => oneLine_of_mem_lines hl) hr)

end Ini

end JenKea
