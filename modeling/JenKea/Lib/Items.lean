import JenKea.Lib.Text

/-!
# Lists in a text

The items between the commas of a text, each without the blanks around it, and empty ones left out. A list that is
written with `", ".join` is read back.
-/

namespace JenKea.Text

/-! ## Stripping -/

section Strip

variable {text : String}

/-- What is left of a text starts and ends with no blank. -/
theorem ends_of_strip (h : strip text ≠ "") :
    ∃ c d, (strip text).toList.head? = some c ∧ (strip text).toList.getLast? = some d ∧
      isSpace c = false ∧ isSpace d = false := by
  set front := text.toList.dropWhile isSpace with hfront
  have hstrip : (strip text).toList = (front.reverse.dropWhile isSpace).reverse := by
    rw [strip, String.toList_ofList]
  have hne : front.reverse.dropWhile isSpace ≠ [] := by
    intro hnil
    apply h
    rw [← String.toList_inj, hstrip, hnil]
    rfl
  obtain ⟨d, back, hback⟩ := List.exists_cons_of_ne_nil hne
  have hd : isSpace d = false := by
    have := List.head?_dropWhile_not isSpace front.reverse
    rw [hback] at this
    simpa using this
  -- the front keeps its first character, which is no blank
  have hstart : (strip text).toList <+: front := by
    rw [hstrip, ← List.reverse_suffix, List.reverse_reverse]
    exact List.dropWhile_suffix _
  obtain ⟨rest, hrest⟩ := hstart
  have hnil : (strip text).toList ≠ [] := by
    rw [hstrip]
    simpa using hne
  obtain ⟨c, cs, hcs⟩ := List.exists_cons_of_ne_nil hnil
  have hc : isSpace c = false := by
    have := List.head?_dropWhile_not isSpace text.toList
    rw [← hfront, ← hrest, hcs] at this
    simpa using this
  refine ⟨c, d, by rw [hcs]; rfl, ?_, hc, hd⟩
  rw [hstrip, hback, List.getLast?_reverse]
  rfl

/-- Stripping a stripped text does nothing. -/
theorem strip_strip (text : String) : strip (strip text) = strip text := by
  by_cases h : strip text = ""
  · rw [h]
    rfl
  · obtain ⟨c, d, hhead, hlast, hc, hd⟩ := ends_of_strip h
    exact strip_of_ends hhead hlast hc hd

/-- What is left of a text is of the text. -/
theorem mem_of_mem_strip {c : Char} (h : c ∈ (strip text).toList) : c ∈ text.toList := by
  rw [strip, String.toList_ofList, List.mem_reverse] at h
  have hback := List.mem_reverse.mp ((List.dropWhile_sublist _).mem h)
  exact (List.dropWhile_sublist _).mem hback

/-- A text without blanks is stripped of nothing. -/
theorem strip_of_all (h : ∀ c ∈ text.toList, isSpace c = false) : strip text = text := by
  have hdrop : ∀ cs : List Char, (∀ c ∈ cs, isSpace c = false) → cs.dropWhile isSpace = cs := by
    intro cs hcs
    cases cs with
    | nil => rfl
    | cons c cs => exact dropWhile_isSpace (hcs c List.mem_cons_self)
  rw [strip, hdrop _ h, hdrop _ fun c hc => h c (List.mem_reverse.mp hc), List.reverse_reverse,
    String.ofList_toList]

end Strip

/-! ## Items -/

/-- The parts of a list between the separators have no separator. -/
theorem notMem_of_mem_splitOn {α : Type} [BEq α] [LawfulBEq α] {x : α} {xs part : List α}
    (h : part ∈ xs.splitOn x) : x ∉ part := by
  induction xs generalizing part with
  | nil =>
    rw [List.splitOn_nil, List.mem_singleton] at h
    simp [h]
  | cons y ys ih =>
    rw [List.splitOn_cons_eq_if_modifyHead] at h
    split_ifs at h with hy
    · rcases List.mem_cons.mp h with rfl | h
      · exact List.not_mem_nil
      · exact ih h
    · obtain ⟨first, rest, hsplit⟩ := List.exists_cons_of_ne_nil (List.splitOn_ne_nil x ys)
      rw [hsplit, List.modifyHead_cons] at h
      rcases List.mem_cons.mp h with rfl | h
      · have hfirst := ih (hsplit ▸ List.mem_cons_self)
        have hne : ¬ x = y := fun heq => hy (by simp [heq])
        simp [hne, hfirst]
      · exact ih (hsplit ▸ List.mem_cons_of_mem _ h)

/-- The items of a text, between its commas. -/
def items (text : String) : List String :=
  ((text.toList.splitOn ',').map fun cs => strip (String.ofList cs)).filter fun item => item ≠ ""

/-- A text that an item can be. -/
structure IsItem (item : String) : Prop where
  notEmpty : item ≠ ""
  stripped : strip item = item
  noComma : ',' ∉ item.toList

/-- The items of a text are such. -/
theorem isItem_of_mem {text item : String} (h : item ∈ items text) : IsItem item := by
  obtain ⟨hmem, hne⟩ := List.mem_filter.mp h
  obtain ⟨cs, hcs, rfl⟩ := List.mem_map.mp hmem
  refine ⟨by simpa using hne, strip_strip _, fun hcomma => ?_⟩
  have hin := mem_of_mem_strip hcomma
  rw [String.toList_ofList] at hin
  exact notMem_of_mem_splitOn hcs hin

section Join

variable {item : String} {rest : List String}

/-- The characters of a list that is joined. -/
theorem toList_commaJoin (item : String) (rest : List String) :
    (commaJoin (item :: rest)).toList =
      [','].intercalate (item.toList :: rest.map fun item => ' ' :: item.toList) := by
  induction rest generalizing item with
  | nil => simp [commaJoin]
  | cons next rest ih =>
    rw [commaJoin, String.toList_append, String.toList_append, ih next, List.map_cons,
      List.intercalate_cons_cons]
    · cases rest <;> simp [List.intercalate]
    · simp

/-- The parts of a list that is joined: a blank stands before each but the first. -/
theorem splitOn_commaJoin (h : ∀ next ∈ item :: rest, ',' ∉ next.toList) :
    (commaJoin (item :: rest)).toList.splitOn ',' =
      item.toList :: rest.map fun item => ' ' :: item.toList := by
  rw [toList_commaJoin]
  apply List.splitOn_intercalate
  · intro l hl
    rcases List.mem_cons.mp hl with rfl | hl
    · exact h item List.mem_cons_self
    · obtain ⟨next, hnext, rfl⟩ := List.mem_map.mp hl
      have := h next (List.mem_cons_of_mem _ hnext)
      simpa using this
  · exact List.cons_ne_nil _ _

/-- The parts of a list of items that is joined are the items. -/
theorem strip_splitOn_commaJoin (h : ∀ next ∈ item :: rest, IsItem next) :
    ((commaJoin (item :: rest)).toList.splitOn ',').map (fun cs => strip (String.ofList cs)) =
      item :: rest := by
  have hblank : ∀ next ∈ rest, strip (String.ofList (' ' :: next.toList)) = next := by
    intro next hnext
    have hstripped := (h next (List.mem_cons_of_mem _ hnext)).stripped
    rw [strip, String.toList_ofList, List.dropWhile_cons_of_pos (by decide)]
    exact hstripped
  have hmap : ((rest.map fun item => ' ' :: item.toList).map fun cs => strip (String.ofList cs)) =
      rest := by
    rw [List.map_map]
    calc rest.map _ = rest.map id := List.map_congr_left hblank
      _ = rest := List.map_id rest
  rw [splitOn_commaJoin fun next hnext => (h next hnext).noComma, List.map_cons, hmap, String.ofList_toList, (h item List.mem_cons_self).stripped]

/-- A list of items that is joined has the items. -/
theorem items_commaJoin {list : List String} (h : ∀ item ∈ list, IsItem item) :
    items (commaJoin list) = list := by
  cases list with
  | nil => rfl
  | cons item rest =>
    rw [items, strip_splitOn_commaJoin h]
    exact List.filter_eq_self.mpr fun next hnext => by simpa using (h next hnext).notEmpty

/-- A list of items that is joined ends as its last item does. -/
theorem exists_last_commaJoin (h : ∀ next ∈ item :: rest, IsItem next) :
    ∃ d, (commaJoin (item :: rest)).toList.getLast? = some d ∧ isSpace d = false := by
  induction rest generalizing item with
  | nil =>
    obtain ⟨hne, hstripped, -⟩ := h item List.mem_cons_self
    obtain ⟨c, d, -, hlast, -, hd⟩ := @ends_of_strip item (hstripped.symm ▸ hne)
    exact ⟨d, hstripped ▸ hlast, hd⟩
  | cons next rest ih =>
    obtain ⟨d, hlast, hd⟩ := ih fun next' hnext => h next' (List.mem_cons_of_mem _ hnext)
    refine ⟨d, ?_, hd⟩
    show (item ++ ", " ++ commaJoin (next :: rest)).toList.getLast? = some d
    rw [String.toList_append, List.getLast?_append, hlast]
    rfl

/-- A list of items that is joined starts as its first item does. -/
theorem exists_head_commaJoin (h : IsItem item) (rest : List String) :
    ∃ c, (commaJoin (item :: rest)).toList.head? = some c ∧ isSpace c = false := by
  obtain ⟨c, d, hhead, -, hc, -⟩ := @ends_of_strip item (h.stripped.symm ▸ h.notEmpty)
  rw [h.stripped] at hhead
  refine ⟨c, ?_, hc⟩
  cases rest with
  | nil => exact hhead
  | cons next rest =>
    show (item ++ ", " ++ commaJoin (next :: rest)).toList.head? = some c
    rw [String.toList_append, String.toList_append, List.append_assoc, List.head?_append, hhead]
    rfl

/-- A list of items that is joined is not empty, and stripped of nothing. -/
theorem strip_commaJoin (h : ∀ next ∈ item :: rest, IsItem next) :
    commaJoin (item :: rest) ≠ "" ∧ strip (commaJoin (item :: rest)) = commaJoin (item :: rest) := by
  obtain ⟨c, hhead, hc⟩ := exists_head_commaJoin (h item List.mem_cons_self) rest
  obtain ⟨d, hlast, hd⟩ := exists_last_commaJoin h
  constructor
  · intro hempty
    rw [hempty] at hhead
    cases hhead
  · exact strip_of_ends hhead hlast hc hd

end Join

end JenKea.Text
