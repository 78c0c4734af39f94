import JenKea.Credentials.Convert

/-!
# The installer's answers, merged into the live configuration

`merge` of `tools/config_merge.py`: `install.sh --configure` runs its wizard while Jen serves, and writes what the
wizard gives onto the file as it is by then. `snapshot` is the file as it was when the wizard began. An answer that is
the snapshot's leaves the file as it is; another one is written into it.

What the merge writes is said of the text that it gives, as a reader reads it back.
-/

namespace JenKea.ConfigMerge

open Credentials (has get ensure value items)

/-- The answer is what the snapshot has. -/
def leaves (snap : Ini) (sec : String) (x : String × String) : Bool := has snap sec x.1 && get snap sec x.1 "" = x.2

/-- One answer. -/
def answer (snap : Ini) (sec : String) (live : Ini) (x : String × String) : Ini :=
  if leaves snap sec x then live else Credentials.set (ensure live sec) sec x.1 x.2

/-- The answers of a section. -/
def answers (snap wizard : Ini) (live : Ini) (x : String × Map String String) : Ini :=
  (items wizard x.2).entries.foldl (answer snap x.1) live

/-- The live configuration after the wizard. -/
def merged (snap live wizard : Ini) : Ini := wizard.sections.entries.foldl (answers snap wizard) live

/-- `merge`; nothing where a text cannot be read. -/
def merge (snapshot live wizard : String) : Option String := do
  let snap ← Ini.read snapshot
  let live ← Ini.read live
  let wizard ← Ini.read wizard
  return Ini.write (merged snap live wizard)

/-! ## What an answer changes -/

/-- What a section has of its own. -/
def own (p : Ini) (sec key : String) : Option String := (p.sections.get sec).bind fun options => options.get key

/-- What the wizard gives for a key, where the snapshot does not have it. -/
def given (snap wizard : Ini) (sec key : String) : Option String :=
  (value wizard sec key).filter fun v => value snap sec key ≠ some v

section Answers

variable {snap live wizard p : Ini} {sec s key k v : String} {x : String × String}

theorem leaves_iff : leaves snap sec x = true ↔ value snap sec x.1 = some x.2 := by
  unfold leaves
  rw [Credentials.has_eq_value, Credentials.get_eq_value]
  cases value snap sec x.1 with
  | none => simp
  | some v => simp

theorem own_set : own (Credentials.set p sec key v) s k =
    if (p.sections.get sec).isSome ∧ s = sec ∧ k = key then some v else own p s k := by
  unfold own Credentials.set
  cases hsec : p.sections.get sec with
  | none => simp
  | some options =>
    dsimp only
    rw [Map.get_put]
    by_cases hs : s = sec
    · rw [if_pos hs, hs, hsec, Option.bind_some, Option.bind_some, Map.get_put]
      by_cases hk : k = key
      · simp [hk]
      · simp [hk]
    · simp [hs]

theorem own_ensure : own (ensure p sec) s k = own p s k := by
  unfold own ensure
  split_ifs with h
  · rfl
  · dsimp only
    rw [Map.get_put]
    split_ifs with hs
    · have hnone : p.sections.get sec = none := by simpa using h
      rw [hs, hnone]
      rfl
    · rfl

theorem isSome_ensure : ((ensure p sec).sections.get s).isSome = ((p.sections.get s).isSome || decide (s = sec)) := by
  unfold ensure
  split_ifs with h
  · by_cases hs : s = sec
    · rw [hs, h]
      rfl
    · simp [hs]
  · dsimp only
    rw [Map.get_put]
    by_cases hs : s = sec
    · simp [hs]
    · simp [hs]

theorem defaults_set : (Credentials.set p sec key v).defaults = p.defaults := by
  unfold Credentials.set
  split <;> rfl

theorem defaults_ensure : (ensure p sec).defaults = p.defaults := by
  unfold ensure
  split_ifs <;> rfl

/-- What one answer does to every key, to every section and to the default section. -/
structure Answered (snap : Ini) (sec : String) (x : String × String) (p q : Ini) : Prop where
  defaults : q.defaults = p.defaults
  own : ∀ s k, own q s k =
    if s = sec ∧ k = x.1 ∧ value snap sec x.1 ≠ some x.2 then some x.2 else ConfigMerge.own p s k
  isSome : ∀ s, (q.sections.get s).isSome =
    ((p.sections.get s).isSome || decide (s = sec ∧ value snap sec x.1 ≠ some x.2))

theorem answered_answer : Answered snap sec x p (answer snap sec p x) := by
  unfold answer
  split_ifs with h
  · have hvalue := leaves_iff.mp h
    exact ⟨rfl, fun s k => by simp [hvalue], fun s => by simp [hvalue]⟩
  · have hvalue : value snap sec x.1 ≠ some x.2 := fun heq => h (leaves_iff.mpr heq)
    refine ⟨defaults_set.trans defaults_ensure, fun s k => ?_, fun s => ?_⟩
    · have hsome : ((ensure p sec).sections.get sec).isSome = true := by
        rw [isSome_ensure]
        simp
      rw [own_set, own_ensure]
      simp [hsome, hvalue]
    · rw [Credentials.isSome_sections_set, isSome_ensure]
      simp [hvalue]

/-- The answers of a section, by their list. -/
theorem own_answers {l : List (String × String)} (hnodup : (l.map Prod.fst).Nodup) :
    own (l.foldl (answer snap sec) p) s k =
      if s = sec then ((l.lookup k).filter fun v => value snap sec k ≠ some v).or (own p s k) else own p s k := by
  induction l generalizing p with
  | nil => simp
  | cons x l ih =>
    obtain ⟨hx, hl⟩ := List.nodup_cons.mp hnodup
    rw [List.foldl_cons, ih hl, answered_answer.own]
    by_cases hs : s = sec
    · rw [if_pos hs, if_pos hs, Map.lookup_cons_ite]
      by_cases hk : k = x.1
      · have hnone : l.lookup k = none := by
          rw [List.lookup_eq_none_iff]
          intro y hy
          have hne : y.1 ≠ x.1 := fun h => hx (h ▸ List.mem_map_of_mem hy)
          simpa [hk] using hne.symm
        rw [hnone, if_pos hk, hk, Option.filter_some]
        by_cases hv : value snap sec x.1 = some x.2
        · simp [hv]
        · simp [hs, hv]
      · rw [if_neg hk, if_neg fun h => hk h.2.1]
    · rw [if_neg hs, if_neg hs, if_neg fun h => hs h.1]

theorem isSome_answers {l : List (String × String)} : ((l.foldl (answer snap sec) p).sections.get s).isSome = true ↔
    (p.sections.get s).isSome = true ∨ s = sec ∧ ∃ x ∈ l, value snap sec x.1 ≠ some x.2 := by
  induction l generalizing p with
  | nil => simp
  | cons x l ih =>
    rw [List.foldl_cons, ih, answered_answer.isSome, Bool.or_eq_true, decide_eq_true_iff]
    constructor
    · rintro ((h | ⟨hs, hv⟩) | ⟨hs, y, hy, hv⟩)
      · exact .inl h
      · exact .inr ⟨hs, x, List.mem_cons_self, hv⟩
      · exact .inr ⟨hs, y, List.mem_cons_of_mem x hy, hv⟩
    · rintro (h | ⟨hs, y, hy, hv⟩)
      · exact .inl (.inl h)
      · rcases List.mem_cons.mp hy with rfl | hy
        · exact .inl (.inr ⟨hs, hv⟩)
        · exact .inr ⟨hs, y, hy, hv⟩

theorem defaults_answers {l : List (String × String)} : (l.foldl (answer snap sec) p).defaults = p.defaults := by
  induction l generalizing p with
  | nil => rfl
  | cons x l ih => rw [List.foldl_cons, ih, answered_answer.defaults]

theorem get_items {options : Map String String} :
    (items wizard options).get k = (options.get k).or (wizard.defaults.get k) := Map.get_putAll_entries

theorem given_of_get {options : Map String String} (h : wizard.sections.get sec = some options) :
    given snap wizard sec k = ((items wizard options).get k).filter fun v => value snap sec k ≠ some v := by
  unfold given value
  rw [h, get_items]
  rfl

/-- The answers of the sections, by their list. -/
theorem own_sections {l : List (String × Map String String)} (hnodup : (l.map Prod.fst).Nodup) :
    own (l.foldl (answers snap wizard) p) s k = (((l.lookup s).bind fun options => (items wizard options).get k).filter
      fun v => value snap s k ≠ some v).or (own p s k) := by
  induction l generalizing p with
  | nil => rfl
  | cons x l ih =>
    obtain ⟨hx, hl⟩ := List.nodup_cons.mp hnodup
    rw [List.foldl_cons, ih hl, answers, own_answers (items wizard x.2).nodup, Map.lookup_cons_ite]
    by_cases hs : s = x.1
    · have hnone : l.lookup s = none := by
        rw [List.lookup_eq_none_iff]
        intro y hy
        have hne : y.1 ≠ x.1 := fun h => hx (h ▸ List.mem_map_of_mem hy)
        simpa [hs] using hne.symm
      rw [hnone, if_pos hs, if_pos hs, hs]
      rfl
    · rw [if_neg hs, if_neg hs]

theorem isSome_sections {l : List (String × Map String String)} :
    ((l.foldl (answers snap wizard) p).sections.get s).isSome = true ↔ (p.sections.get s).isSome = true ∨
      ∃ x ∈ l, s = x.1 ∧ ∃ y ∈ (items wizard x.2).entries, value snap s y.1 ≠ some y.2 := by
  induction l generalizing p with
  | nil => simp
  | cons x l ih =>
    rw [List.foldl_cons, ih, answers, isSome_answers]
    constructor
    · rintro ((h | ⟨hs, hv⟩) | ⟨z, hz, hv⟩)
      · exact .inl h
      · exact .inr ⟨x, List.mem_cons_self, hs, by rwa [hs]⟩
      · exact .inr ⟨z, List.mem_cons_of_mem x hz, hv⟩
    · rintro (h | ⟨z, hz, hs, hv⟩)
      · exact .inl (.inl h)
      · rcases List.mem_cons.mp hz with rfl | hz
        · exact .inl (.inr ⟨hs, by rwa [hs] at hv⟩)
        · exact .inr ⟨z, hz, hs, hv⟩

theorem defaults_sections {l : List (String × Map String String)} :
    (l.foldl (answers snap wizard) p).defaults = p.defaults := by
  induction l generalizing p with
  | nil => rfl
  | cons x l ih => rw [List.foldl_cons, ih, answers, defaults_answers]

/-- The merged configuration has what the wizard gives, and else what the live one has. -/
theorem own_merged : own (merged snap live wizard) s k = (given snap wizard s k).or (own live s k) := by
  have hget : ((wizard.sections.entries.lookup s).bind fun options => (items wizard options).get k) =
      value wizard s k := by
    unfold value
    exact congrArg _ (funext fun options => get_items)
  rw [merged, own_sections wizard.sections.nodup, hget]
  rfl

/-- A section is there where the live configuration has it, or the wizard gives something in it. -/
theorem isSome_merged : ((merged snap live wizard).sections.get s).isSome = true ↔
    (live.sections.get s).isSome = true ∨ ∃ k v, given snap wizard s k = some v := by
  rw [merged, isSome_sections]
  refine or_congr_right ⟨?_, ?_⟩
  · rintro ⟨x, hx, rfl, y, hy, hv⟩
    refine ⟨y.1, y.2, ?_⟩
    rw [given_of_get (Map.mem_entries.mp hx), Map.mem_entries.mp hy]
    simpa using hv
  · rintro ⟨k, v, hgiven⟩
    obtain ⟨hvalue, hv⟩ := Option.filter_eq_some_iff.mp hgiven
    unfold value at hvalue
    obtain ⟨options, hoptions, hget⟩ := Option.bind_eq_some_iff.mp hvalue
    refine ⟨(s, options), Map.mem_entries.mpr hoptions, rfl, (k, v), Map.mem_entries.mpr ?_, by simpa using hv⟩
    rw [get_items]
    exact hget

theorem defaults_merged : (merged snap live wizard).defaults = live.defaults := defaults_sections

/-! ## What is merged is what a file holds -/

theorem regular_ensure (h : Ini.Regular p) (hne : sec ≠ "") (hline : '\n' ∉ sec.toList ∧ '\r' ∉ sec.toList)
    (hdefault : sec ≠ Ini.defaultSection) : Ini.Regular (ensure p sec) := by
  unfold ensure
  split_ifs with hsome
  · exact h
  · have hnot : sec ∉ p.sections.keys := fun hmem => hsome (Map.mem_keys.mp hmem)
    refine ⟨h.defaults, fun x hx => ?_, fun hmem => ?_⟩
    · have hget := Map.mem_entries.mp hx
      rw [Map.get_put] at hget
      split_ifs at hget with hx1
      · rw [hx1, ← Option.some.inj hget]
        exact ⟨hne, hline, fun y hy => by cases hy⟩
      · exact h.sections x (Map.mem_entries.mpr hget)
    · have hsection := Map.mem_keys.mp hmem
      rw [Map.get_put, if_neg hdefault.symm] at hsection
      exact h.noDefault (Map.mem_keys.mpr hsection)

theorem regular_answer (h : Ini.Regular p) (hne : sec ≠ "") (hline : '\n' ∉ sec.toList ∧ '\r' ∉ sec.toList)
    (hdefault : sec ≠ Ini.defaultSection) {x : String × String} (hx : Ini.RegularOption x.1 x.2.toList) :
    Ini.Regular (answer snap sec p x) := by
  unfold answer
  split_ifs
  · exact h
  · exact Credentials.regular_set (regular_ensure h hne hline hdefault) hx

/-- What a section reads, its own or the default section's, is an option that a file holds. -/
theorem regular_items (h : Ini.Regular wizard) {options : Map String String}
    (hoptions : (sec, options) ∈ wizard.sections.entries) {x : String × String}
    (hx : x ∈ (items wizard options).entries) : Ini.RegularOption x.1 x.2.toList := by
  have hget := Map.mem_entries.mp hx
  rw [get_items] at hget
  cases hown : options.get x.1 with
  | some v =>
    rw [hown, Option.some_or] at hget
    rw [← Option.some.inj hget]
    exact (h.sections _ hoptions).regular (x.1, v) (Map.mem_entries.mpr hown)
  | none =>
    rw [hown, Option.none_or] at hget
    exact h.defaults x (Map.mem_entries.mpr hget)

theorem regular_merged (hlive : Ini.Regular live) (hwizard : Ini.Regular wizard) :
    Ini.Regular (merged snap live wizard) := by
  have hanswers : ∀ (sec : String) (l : List (String × String)) (p : Ini), Ini.Regular p → sec ≠ "" →
      '\n' ∉ sec.toList ∧ '\r' ∉ sec.toList → sec ≠ Ini.defaultSection →
      (∀ x ∈ l, Ini.RegularOption x.1 x.2.toList) → Ini.Regular (l.foldl (answer snap sec) p) := by
    intro sec l
    induction l with
    | nil => exact fun p hp _ _ _ _ => hp
    | cons x l ih =>
      intro p hp hne hline hdefault hl
      rw [List.foldl_cons]
      exact ih _ (regular_answer hp hne hline hdefault (hl x List.mem_cons_self)) hne hline hdefault
        fun y hy => hl y (List.mem_cons_of_mem x hy)
  have hsections : ∀ (l : List (String × Map String String)) (p : Ini), Ini.Regular p →
      (∀ x ∈ l, x ∈ wizard.sections.entries) → Ini.Regular (l.foldl (answers snap wizard) p) := by
    intro l
    induction l with
    | nil => exact fun p hp _ => hp
    | cons x l ih =>
      intro p hp hl
      have hx := hl x List.mem_cons_self
      have hsection := hwizard.sections x hx
      have hdefault : x.1 ≠ Ini.defaultSection := fun h => hwizard.noDefault (h ▸ List.mem_map_of_mem hx)
      rw [List.foldl_cons, answers]
      exact ih _ (hanswers x.1 _ p hp hsection.nonempty hsection.oneLine hdefault fun y hy => regular_items hwizard hx hy)
        fun y hy => hl y (List.mem_cons_of_mem x hy)
  exact hsections _ _ hlive fun _ hx => hx

/-! ## The same answers again -/

theorem answer_of_own (h : value snap sec x.1 ≠ some x.2 → own p sec x.1 = some x.2) : answer snap sec p x = p := by
  unfold answer
  split_ifs with hleaves
  · rfl
  · have hown := h fun heq => hleaves (leaves_iff.mpr heq)
    unfold own at hown
    obtain ⟨options, hoptions, hget⟩ := Option.bind_eq_some_iff.mp hown
    have hensure : ensure p sec = p := by
      unfold ensure
      rw [if_pos (by rw [hoptions]; rfl)]
    rw [hensure, Credentials.set, hoptions]
    dsimp only
    rw [Map.put_of_get hget, Map.put_of_get hoptions]

/-- What has every answer is left as it is. -/
theorem merged_of_given (h : ∀ s k v, given snap wizard s k = some v → own p s k = some v) :
    merged snap p wizard = p := by
  have hsections : ∀ l : List (String × Map String String), (∀ x ∈ l, x ∈ wizard.sections.entries) →
      l.foldl (answers snap wizard) p = p := by
    intro l
    induction l with
    | nil => exact fun _ => rfl
    | cons x l ih =>
      intro hl
      have hget := Map.mem_entries.mp (hl x List.mem_cons_self)
      have hanswers : ∀ l : List (String × String), (∀ y ∈ l, y ∈ (items wizard x.2).entries) →
          l.foldl (answer snap x.1) p = p := by
        intro l
        induction l with
        | nil => exact fun _ => rfl
        | cons y l ih =>
          intro hl
          have hy := Map.mem_entries.mp (hl y List.mem_cons_self)
          have hanswer : answer snap x.1 p y = p := answer_of_own fun hv => h x.1 y.1 y.2 (by
            rw [given_of_get hget, hy]
            simpa using hv)
          rw [List.foldl_cons, hanswer]
          exact ih fun z hz => hl z (List.mem_cons_of_mem y hz)
      rw [List.foldl_cons, answers, hanswers _ fun _ hy => hy]
      exact ih fun y hy => hl y (List.mem_cons_of_mem x hy)
  exact hsections _ fun _ hx => hx

end Answers

/-! ## The merged file -/

theorem merge_eq_some {snapshot live wizard text : String} (h : merge snapshot live wizard = some text) :
    ∃ s l w, Ini.read snapshot = some s ∧ Ini.read live = some l ∧ Ini.read wizard = some w ∧
      text = Ini.write (merged s l w) := by
  unfold merge at h
  obtain ⟨s, hs, h⟩ := Option.bind_eq_some_iff.mp h
  obtain ⟨l, hl, h⟩ := Option.bind_eq_some_iff.mp h
  obtain ⟨w, hw, h⟩ := Option.bind_eq_some_iff.mp h
  exact ⟨s, l, w, hs, hl, hw, (Option.some.inj h).symm⟩

theorem read_merge {s l w : Ini} {live wizard : String} (hlive : Ini.read live = some l)
    (hwizard : Ini.read wizard = some w) : Ini.read (Ini.write (merged s l w)) = some (merged s l w) :=
  Ini.read_write (regular_merged (Ini.regular_of_read hlive) (Ini.regular_of_read hwizard))

/-- The configuration has the answers that the snapshot does not have, and else what the live one has. -/
structure ThreeWay (snap live wizard p : Ini) : Prop where
  defaults : p.defaults = live.defaults
  own : ∀ sec key, own p sec key = (given snap wizard sec key).or (ConfigMerge.own live sec key)
  sections : ∀ sec, (p.sections.get sec).isSome = true ↔
    (live.sections.get sec).isSome = true ∨ ∃ key v, given snap wizard sec key = some v

/-- The text is read as the live one with the answers that the snapshot does not have. -/
def Merged (snapshot live wizard text : String) : Prop :=
  ∃ s l w p, Ini.read snapshot = some s ∧ Ini.read live = some l ∧ Ini.read wizard = some w ∧
    Ini.read text = some p ∧ ThreeWay s l w p

/-- The file that the merge writes is read as the live one with the answers that the snapshot does not have: every
other key, section and default is as the live file has it by then. The same answers, merged once more, change
nothing. -/
theorem merge_threeWay (snapshot live wizard text : String) (h : merge snapshot live wizard = some text) :
    Merged snapshot live wizard text ∧ merge snapshot text wizard = some text := by
  obtain ⟨s, l, w, hs, hl, hw, rfl⟩ := merge_eq_some h
  have hread : Ini.read (Ini.write (merged s l w)) = some (merged s l w) := read_merge hl hw
  have hagain : merged s (merged s l w) w = merged s l w := merged_of_given fun sec key v hgiven => by
    rw [own_merged, hgiven]
    rfl
  refine ⟨⟨s, l, w, _, hs, hl, hw, hread, defaults_merged, fun sec key => own_merged, fun sec => isSome_merged⟩, ?_⟩
  unfold merge
  rw [hs, hread, hw]
  exact congrArg (fun p => some (Ini.write p)) hagain

/-- A save changes `api_user` and adds `[oidc]` while the wizard runs; the wizard changes `api_url`. -/
theorem merge_threeWay_save :
    Merged "[kea]\napi_url = http://a\napi_user = jen\n" "[kea]\napi_url = http://a\napi_user = kea\n[oidc]\nissuer = i\n"
        "[kea]\napi_url = http://b\napi_user = jen\n"
        "[kea]\napi_url = http://b\napi_user = kea\n\n[oidc]\nissuer = i\n\n" ∧
      merge "[kea]\napi_url = http://a\napi_user = jen\n"
          "[kea]\napi_url = http://b\napi_user = kea\n\n[oidc]\nissuer = i\n\n"
          "[kea]\napi_url = http://b\napi_user = jen\n" =
        some "[kea]\napi_url = http://b\napi_user = kea\n\n[oidc]\nissuer = i\n\n" :=
  merge_threeWay _ _ _ _ (by decide +kernel)

end JenKea.ConfigMerge
