import JenKea.SubnetMap.Section

/-!
# The lines of the section

What a file gives back of a line, part by part, and what lines a file holds.
-/

namespace JenKea.SubnetMap

open Text

variable {item raw part : String} {rest : List String} {n : ℤ}

/-! ## The parts of a line -/

theorem parts_eq (val : String) : parts val = ((val.toList.splitOn ',').map Ini.strip).map String.ofList := by
  rw [parts, List.map_map]
  refine List.map_congr_left fun cs _ => ?_
  rw [strip, String.toList_ofList]
  rfl

theorem strip_trimValue (text : String) :
    strip (Ini.trimValue text) = String.ofList (Ini.strip (Ini.trimLines text.toList)) := by
  rw [strip, Ini.trimValue, String.toList_ofList]
  rfl

/-- The parts of a joined line, as a file gives it back. -/
theorem parts_trimValue_commaJoin (h : ∀ next ∈ item :: rest, ',' ∉ next.toList) :
    parts (Ini.trimValue (commaJoin (item :: rest))) = (item :: rest).map fun next => strip (Ini.trimValue next) := by
  have hparts : ((commaJoin (item :: rest)).toList.splitOn ',').map (fun l => Ini.strip (Ini.trimLines l)) =
      (item :: rest).map fun next => Ini.strip (Ini.trimLines next.toList) := by
    rw [splitOn_commaJoin h, List.map_cons, List.map_cons, List.map_map]
    refine congrArg _ (List.map_congr_left fun next _ => ?_)
    exact congrArg Ini.strip (Ini.trimLines_cons (by decide) (by decide) next.toList)
  rw [parts_eq, Ini.trimValue, String.toList_ofList, Ini.splitOn_trimLines_strip (by decide), hparts, List.map_map]
  exact List.map_congr_left fun next _ => (strip_trimValue next).symm

/-- A part that a file gives back as it is. -/
structure Holds (part : String) : Prop where
  isItem : IsItem part
  regular : Ini.RegularValue part.toList

theorem Holds.strip_trimValue (h : Holds item) : strip (Ini.trimValue item) = item := by
  rw [Ini.trimValue_of_regular h.regular, h.isItem.stripped]

/-- The parts of a line that is written. -/
theorem parts_of_holds (item : String) (rest : List String) (h : ∀ next ∈ item :: rest, Holds next) :
    parts (Ini.trimValue (commaJoin (item :: rest))) = item :: rest := by
  rw [parts_trimValue_commaJoin fun next hnext => (h next hnext).isItem.noComma]
  exact (List.map_congr_left fun next hnext => (h next hnext).strip_trimValue).trans (List.map_id _)

/-! ## What a file holds -/

/-- A line that a file gives back but for the white space around its lines. -/
structure Quiet (line : String) : Prop where
  quiet : Ini.Quiet line.toList
  noReturn : '\r' ∉ line.toList

theorem Quiet.append {a b : String} (ha : Quiet a) (hb : Quiet b) : Quiet (a ++ b) := by
  refine ⟨?_, ?_⟩
  · rw [String.toList_append]
    exact ha.quiet.append hb.quiet
  · rw [String.toList_append, List.mem_append, not_or]
    exact ⟨ha.noReturn, hb.noReturn⟩

theorem quiet_comma : Quiet ", " := ⟨Ini.quiet_of_oneLine (by decide), by decide⟩

theorem Quiet.commaJoin : ∀ l : List String, (∀ next ∈ l, Quiet next) → Quiet (commaJoin l)
  | [], _ => ⟨Ini.quiet_of_oneLine List.not_mem_nil, List.not_mem_nil⟩
  | [name], h => h name List.mem_cons_self
  | name :: next :: l, h =>
    ((h name List.mem_cons_self).append quiet_comma).append
      (Quiet.commaJoin (next :: l) fun other hother => h other (List.mem_cons_of_mem name hother))

theorem Holds.quiet (h : Holds part) : Quiet part := ⟨h.regular.quiet, h.regular.noReturn⟩

theorem mem_parts : part ∈ parts raw ↔ ∃ cs ∈ raw.toList.splitOn ',', String.ofList (Ini.strip cs) = part := by
  rw [parts_eq, List.map_map, List.mem_map]
  rfl

/-- The parts of a line that a file holds. -/
structure Part (part : String) : Prop where
  quiet : Quiet part
  noComma : ',' ∉ part.toList
  givenBack : strip (Ini.trimValue part) = part

theorem part_of_mem (hraw : Ini.RegularValue raw.toList) (h : part ∈ parts raw) : Part part := by
  obtain ⟨cs, hcs, rfl⟩ := mem_parts.mp h
  refine ⟨⟨?_, ?_⟩, ?_, ?_⟩
  · rw [String.toList_ofList]
    exact hraw.quiet_part hcs
  · rw [String.toList_ofList]
    exact fun hmem => hraw.noReturn ((Ini.infix_of_mem_splitOn hcs).subset (Ini.mem_of_mem_strip hmem))
  · rw [String.toList_ofList]
    exact fun hmem => notMem_of_mem_splitOn hcs (Ini.mem_of_mem_strip hmem)
  · rw [strip_trimValue, String.toList_ofList, hraw.strip_trimLines (by decide) hcs]

/-! ## Names without commas -/

theorem withoutCommas_append (a b : String) : withoutCommas (a ++ b) = withoutCommas a ++ withoutCommas b := by
  rw [← String.toList_inj]
  simp [withoutCommas]

theorem withoutCommas_of_notMem (h : ',' ∉ item.toList) : withoutCommas item = item := by
  rw [← String.toList_inj, withoutCommas, String.toList_ofList]
  have hsame : ∀ c ∈ item.toList, (if c = ',' then ' ' else c) = c := by
    intro c hc
    rw [if_neg]
    rintro rfl
    exact h hc
  exact (List.map_congr_left hsame).trans (List.map_id _)

theorem comma_notMem_withoutCommas (text : String) : ',' ∉ (withoutCommas text).toList := by
  rw [withoutCommas, String.toList_ofList, List.mem_map]
  rintro ⟨c, _, hc⟩
  by_cases hcomma : c = ','
  · rw [if_pos hcomma] at hc
    exact absurd hc (by decide)
  · rw [if_neg hcomma] at hc
    exact hcomma hc

/-- A repaired name is quiet. -/
theorem quiet_withoutCommas : ∀ l : List String, (∀ next ∈ l, Part next) → Quiet (withoutCommas (commaJoin l))
  | [], _ => ⟨Ini.quiet_of_oneLine List.not_mem_nil, List.not_mem_nil⟩
  | [name], h => by
    have hname := h name List.mem_cons_self
    show Quiet (withoutCommas name)
    rw [withoutCommas_of_notMem hname.noComma]
    exact hname.quiet
  | name :: next :: l, h => by
    have hname := h name List.mem_cons_self
    have hrest := quiet_withoutCommas (next :: l) fun other hother => h other (List.mem_cons_of_mem name hother)
    have hblanks : Quiet (withoutCommas ", ") := ⟨Ini.quiet_of_oneLine (by decide), by decide⟩
    show Quiet (withoutCommas (name ++ ", " ++ commaJoin (next :: l)))
    rw [withoutCommas_append, withoutCommas_append, withoutCommas_of_notMem hname.noComma]
    exact (hname.quiet.append hblanks).append hrest

/-! ## Numbers -/

theorem notMem_toString {c : Char} (hc : c ≠ '-') (hdigit : c.isDigit = false) : c ∉ (toString n).toList := by
  intro hmem
  rcases of_mem_toString hmem with h | h
  · exact hc h
  · rw [hdigit] at h
    cases h

theorem isSpace_of_mem_toString {c : Char} (h : c ∈ (toString n).toList) : isSpace c = false := by
  rcases of_mem_toString h with rfl | h
  · decide
  · exact isSpace_of_isDigit h

theorem trimmed_toString (n : ℤ) : Ini.Trimmed (toString n).toList :=
  ⟨fun _ h => isSpace_of_mem_toString (List.mem_of_mem_head? h),
    fun _ h => isSpace_of_mem_toString (List.mem_of_getLast? h)⟩

theorem holds_toString (n : ℤ) : Holds (toString n) where
  isItem := ⟨toString_ne_empty n, strip_of_all fun _ => isSpace_of_mem_toString,
    notMem_toString (by decide) (by decide)⟩
  regular := Ini.regularValue_of_oneLine
    ⟨notMem_toString (by decide) (by decide), notMem_toString (by decide) (by decide)⟩ (trimmed_toString n)

/-- A number is a key. -/
theorem plainKey_toString (n : ℤ) : Ini.PlainKey (toString n) := by
  have hhead : ∀ c : Char, c ≠ '-' → c.isDigit = false → (toString n).toList.head? ≠ some c :=
    fun c hc hdigit h => notMem_toString hc hdigit (List.mem_of_mem_head? h)
  refine ⟨toString_ne_empty n, ⟨?_, ?_⟩, trimmed_toString n, ?_, hhead '[' (by decide) (by decide), ?_, ?_⟩
  · exact notMem_toString (by decide) (by decide)
  · exact notMem_toString (by decide) (by decide)
  · unfold Ini.isComment
    rw [decide_eq_false (hhead '#' (by decide) (by decide)), decide_eq_false (hhead ';' (by decide) (by decide))]
    rfl
  · intro c hc
    rcases of_mem_toString hc with rfl | hdigit
    · decide
    · unfold Ini.isDelimiter
      rw [Bool.or_eq_false_iff, decide_eq_false_iff_not, decide_eq_false_iff_not]
      constructor
      · rintro rfl
        exact absurd hdigit (by decide)
      · rintro rfl
        exact absurd hdigit (by decide)
  · have hlower : ∀ c ∈ (toString n).toList, c.toLower = c := by
      intro c hc
      rcases of_mem_toString hc with rfl | hdigit
      · decide
      · rcases Ini.toLower_cases c with h | ⟨hlow, _, _⟩
        · exact h
        · simp only [Char.isDigit, Bool.and_eq_true, decide_eq_true_eq, UInt32.le_iff_toNat_le] at hdigit
          have hhigh : c.toNat ≤ 57 := hdigit.2
          omega
    have hlist := Ini.toList_lower (toString n).toList
    rw [String.ofList_toList] at hlist
    rw [← String.toList_inj, hlist]
    exact (List.map_congr_left hlower).trans (List.map_id _)

end JenKea.SubnetMap
