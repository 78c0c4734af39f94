import JenKea.Import.Windows

/-!
# The pools of a scope

The pools that `scope_to_subnet` makes are a partition of the range of the scope without its
exclusions, exactly when nothing inverted gets in: no exclusion whose first address is above its last
lies within what is left of the range with an address between its ends that no later exclusion takes
(`Doubled`), and no range that is carved out for a policy is inverted (`taken`).
-/

namespace JenKea.Import

open JenKea.Interval

/-! ## What the texts of a scope say -/

/-- The range that two texts name. A blank text names none. -/
def parseRange (r : String × String) : Option Range := do
  let s ← Ipv4.parse r.1
  let e ← Ipv4.parse r.2
  return (s, e)

/-- A pair of texts that is passed over, or names a range. -/
def Readable (r : String × String) : Prop := r.1 = "" ∨ r.2 = "" ∨ (parseRange r).isSome

instance (r : String × String) : Decidable (Readable r) :=
  inferInstanceAs (Decidable (_ ∨ _ ∨ _))

/-- The addresses of the scope are IPv4 addresses. -/
structure Scope.Valid (scope : Scope) : Prop where
  range : (parseRange (scope.startRange, scope.endRange)).isSome
  exclusions : ∀ r ∈ scope.exclusions, Readable r
  policies : ∀ p ∈ scope.policies, ∀ r ∈ p.ipRanges, Readable r

/-- The range of the scope. -/
def Scope.range (scope : Scope) : Range :=
  (parseRange (scope.startRange, scope.endRange)).getD (0, 0)

/-- The exclusions of the scope. -/
def Scope.blocks (scope : Scope) : List Range := scope.exclusions.filterMap parseRange

/-- The policies that become classes, in the order that they are processed in: the name of the class
and the ranges of the policy. -/
def wantedBy (optionsToKea : OptionsToKea) (context : String) (policies : List Policy) :
    List (String × List Range) :=
  policies.filterMap fun p => (policyToClass optionsToKea p context).1.map fun cls =>
    (cls.name, p.ipRanges.filterMap parseRange)

/-- The policies of the scope that become classes. -/
def Scope.wanted (optionsToKea : OptionsToKea) (scope : Scope) : List (String × List Range) :=
  wantedBy optionsToKea ("scope " ++ scope.name) scope.inOrder

/-- The range that the text of a pool names. -/
def readPool (text : String) : Option Range :=
  match text.toList.splitOn ' ' with
  | [s, ['-'], e] => parseRange (String.ofList s, String.ofList e)
  | _ => none

section Texts

variable {r : String × String} {b : Range}

theorem parseRange_eq_none (h : r.1 = "" ∨ r.2 = "") : parseRange r = none := by
  have hblank : Ipv4.parse "" = none := by decide
  unfold parseRange
  rcases h with h | h
  · rw [h, hblank]
    rfl
  · rw [h, hblank]
    cases Ipv4.parse r.1 <;> rfl

theorem parseRange_eq_some (h : parseRange r = some b) :
    Ipv4.parse r.1 = some b.1 ∧ Ipv4.parse r.2 = some b.2 ∧ ¬ (r.1 = "" ∨ r.2 = "") := by
  have hblank : ¬ (r.1 = "" ∨ r.2 = "") := fun hblank => by
    rw [parseRange_eq_none hblank] at h
    cases h
  simp only [parseRange, Option.bind_eq_bind, Option.bind_eq_some_iff, Option.pure_def,
    Option.some.injEq] at h
  obtain ⟨s, hs, e, he, rfl⟩ := h
  exact ⟨hs, he, hblank⟩

/-- Both ends of the range can be written. -/
def Writable (b : Range) : Prop := 0 ≤ b.1 ∧ b.1 < 2 ^ 32 ∧ 0 ≤ b.2 ∧ b.2 < 2 ^ 32

theorem writable_of_parseRange (h : parseRange r = some b) : Writable b := by
  obtain ⟨hs, he, -⟩ := parseRange_eq_some h
  exact ⟨(Ipv4.parse_bounds hs).1, (Ipv4.parse_bounds hs).2, Ipv4.parse_bounds he⟩

/-- A range that is written is read back. -/
theorem readPool_poolText (h : Writable b) :
    ∃ text, poolText b = some text ∧ readPool text = some b := by
  obtain ⟨s, hs⟩ := Ipv4.exists_toText ⟨h.1, h.2.1⟩
  obtain ⟨e, he⟩ := Ipv4.exists_toText h.2.2
  have hblank : ∀ {n text}, Ipv4.toText n = some text → ' ' ∉ text.toList := by
    intro n text htext hmem
    rcases Ipv4.isDigit_of_mem_toText htext hmem with hdigit | hdot
    · exact absurd hdigit (by decide)
    · exact absurd hdot (by decide)
  have hsplit : (s ++ " - " ++ e).toList.splitOn ' ' = [s.toList, ['-'], e.toList] := by
    have hjoin : (s ++ " - " ++ e).toList = [' '].intercalate [s.toList, ['-'], e.toList] := by
      simp [List.intercalate, List.intersperse]
    rw [hjoin]
    refine List.splitOn_intercalate ' ' (fun l hl => ?_) (by simp)
    simp only [List.mem_cons, List.not_mem_nil, or_false] at hl
    rcases hl with rfl | rfl | rfl
    · exact hblank hs
    · decide
    · exact hblank he
  refine ⟨s ++ " - " ++ e, by simp [poolText, hs, he], ?_⟩
  rw [readPool, hsplit]
  simp [parseRange, Ipv4.parse_toText hs, Ipv4.parse_toText he]

/-- Ranges that are written are read back. -/
theorem mapM_readPool {l : List Range} (h : ∀ b ∈ l, Writable b) :
    ∃ texts, l.mapM poolText = some texts ∧ texts.mapM readPool = some l := by
  induction l with
  | nil => exact ⟨[], rfl, rfl⟩
  | cons b l ih =>
    rw [List.forall_mem_cons] at h
    obtain ⟨text, htext, hread⟩ := readPool_poolText h.1
    obtain ⟨texts, htexts, hreads⟩ := ih h.2
    refine ⟨text :: texts, ?_, ?_⟩
    · simp [List.mapM_cons, htext, htexts]
    · simp [List.mapM_cons, hread, hreads]

end Texts

/-! ## The split -/

/-- The loop over the exclusions. -/
theorem foldlM_exclusions (exclusions : List (String × String))
    (h : ∀ r ∈ exclusions, Readable r) (segments : List Range) :
    exclusions.foldlM (fun segments exc =>
      if exc.1 = "" ∨ exc.2 = "" then some segments
      else do
        let es ← Ipv4.parse exc.1
        let ee ← Ipv4.parse exc.2
        return segments.flatMap fun seg =>
          if ee < seg.1 ∨ seg.2 < es then [seg]
          else (if seg.1 < es then [(seg.1, es - 1)] else []) ++
            if ee < seg.2 then [(ee + 1, seg.2)] else []) segments =
      some (split segments (exclusions.filterMap parseRange)) := by
  induction exclusions generalizing segments with
  | nil => rfl
  | cons exc exclusions ih =>
    rw [List.forall_mem_cons] at h
    rw [List.foldlM_cons]
    split_ifs with hblank
    · rw [Option.bind_eq_bind, Option.bind_some, ih h.2,
        List.filterMap_cons_none (parseRange_eq_none hblank)]
    · have hsome : (parseRange exc).isSome := by
        rcases h.1 with h₁ | h₂ | hsome
        · exact absurd (.inl h₁) hblank
        · exact absurd (.inr h₂) hblank
        · exact hsome
      obtain ⟨b, hb⟩ := Option.isSome_iff_exists.mp hsome
      obtain ⟨hs, he, -⟩ := parseRange_eq_some hb
      rw [hs, he, List.filterMap_cons_some hb, split_cons]
      exact ih h.2 _

/-- `split_pool_by_exclusions` takes every exclusion out of the range. -/
theorem splitPoolByExclusions_eq {scope : Scope} (h : scope.Valid) :
    splitPoolByExclusions scope.startRange scope.endRange scope.exclusions =
      some ((split [scope.range] scope.blocks).filter fun g => decide (g.1 ≤ g.2)) := by
  obtain ⟨b, hb⟩ := Option.isSome_iff_exists.mp h.range
  obtain ⟨hs, he, -⟩ := parseRange_eq_some hb
  have hrange : scope.range = b := by rw [Scope.range, hb, Option.getD_some]
  have hloop := foldlM_exclusions scope.exclusions h.exclusions [(b.1, b.2)]
  rw [splitPoolByExclusions, hs, he]
  dsimp only [Option.bind_eq_bind, Option.bind_some]
  dsimp only [Option.bind_eq_bind] at hloop
  rw [hloop, hrange]
  rfl

/-! ## The carving -/

/-- The first of the ranges that some segment holds is taken out of it. -/
def takeFirst (segments : List Range) (ranges : List Range) : List Range × Option Range :=
  match ranges.find? fun r => segments.any (fits r) with
  | none => (segments, none)
  | some r => ((carvePool segments r).1, some r)

/-- What is left of the segments when each of the policies has taken its range, and which range each
has taken. -/
def carveAll (segments : List Range) :
    List (String × List Range) → List Range × List (String × Option Range)
  | [] => (segments, [])
  | w :: wanted =>
    let rest := carveAll (takeFirst segments w.2).1 wanted
    (rest.1, (w.1, (takeFirst segments w.2).2) :: rest.2)

theorem carvePool_eq_some {segments : List Range} {r : Range} (h : segments.any (fits r)) :
    ∃ left, carvePool segments r = (left, true) := by
  unfold carvePool
  cases hfind : segments.find? (fits r) with
  | none =>
    rw [List.find?_eq_none] at hfind
    obtain ⟨seg, hseg, hfits⟩ := List.any_eq_true.mp h
    exact absurd hfits (hfind seg hseg)
  | some seg => exact ⟨_, rfl⟩

theorem carvePool_eq_none {segments : List Range} {r : Range} (h : segments.any (fits r) = false) :
    carvePool segments r = (segments, false) := by
  have hfind : segments.find? (fits r) = none := by
    rw [List.find?_eq_none]
    simpa using h
  rw [carvePool, hfind]

theorem takeFirst_cons_pos {segments ranges : List Range} {r : Range}
    (h : segments.any (fits r) = true) :
    takeFirst segments (r :: ranges) = ((carvePool segments r).1, some r) := by
  have hfind : (r :: ranges).find? (fun r => segments.any (fits r)) = some r :=
    List.find?_cons_of_pos h
  rw [takeFirst, hfind]

theorem takeFirst_cons_neg {segments ranges : List Range} {r : Range}
    (h : segments.any (fits r) = false) :
    takeFirst segments (r :: ranges) = takeFirst segments ranges := by
  have hfind : (r :: ranges).find? (fun r => segments.any (fits r)) =
      ranges.find? fun r => segments.any (fits r) :=
    List.find?_cons_of_neg (by simpa using h)
  rw [takeFirst, hfind, takeFirst]

/-- The loop over the ranges of a policy takes the first that fits. -/
theorem carveRanges_eq (ranges : List (String × String)) (h : ∀ r ∈ ranges, Readable r)
    (segments : List Range) :
    ∃ failed, carveRanges segments ranges =
      some ((takeFirst segments (ranges.filterMap parseRange)).1,
        (takeFirst segments (ranges.filterMap parseRange)).2, failed) := by
  induction ranges with
  | nil => exact ⟨[], rfl⟩
  | cons r ranges ih =>
    rw [List.forall_mem_cons] at h
    obtain ⟨failed, hrest⟩ := ih h.2
    rw [carveRanges]
    split_ifs with hblank
    · rw [List.filterMap_cons_none (parseRange_eq_none hblank)]
      exact ⟨failed, hrest⟩
    · have hsome : (parseRange r).isSome := by
        rcases h.1 with h₁ | h₂ | hsome
        · exact absurd (.inl h₁) hblank
        · exact absurd (.inr h₂) hblank
        · exact hsome
      obtain ⟨b, hb⟩ := Option.isSome_iff_exists.mp hsome
      obtain ⟨hs, he, -⟩ := parseRange_eq_some hb
      rw [hs, he, List.filterMap_cons_some hb]
      dsimp only [Option.bind_eq_bind, Option.bind_some]
      cases hany : segments.any (fits b) with
      | true =>
        obtain ⟨left, hleft⟩ := carvePool_eq_some hany
        refine ⟨[], ?_⟩
        rw [takeFirst_cons_pos hany, hleft]
        rfl
      | false =>
        refine ⟨r :: failed, ?_⟩
        rw [takeFirst_cons_neg hany, carvePool_eq_none hany, hrest]
        rfl

/-- What the classes and guards are, by what each policy has taken. -/
structure Carved (c c' : Carving) (segments : List Range) (taken : List (String × Option Range)) :
    Prop where
  segments : c'.segments = segments
  carved : c'.carved = c.carved ++ taken.filterMap Prod.snd
  poolGuards : c'.poolGuards = c.poolGuards ++ taken.filterMap fun t => t.2.bind fun r =>
    (poolText r).map fun text => (text, t.1)
  subnetGuards : c'.subnetGuards = c.subnetGuards ++
    taken.filterMap fun t => if t.2.isNone then some t.1 else none

theorem takeFirst_mem {segments ranges : List Range} {r : Range}
    (h : (takeFirst segments ranges).2 = some r) : r ∈ ranges ∧ segments.any (fits r) := by
  unfold takeFirst at h
  split at h
  · cases h
  · next r' hfind =>
    obtain rfl := Option.some.inj h
    exact ⟨List.mem_of_find?_eq_some hfind,
      List.find?_some (p := fun r => segments.any (fits r)) hfind⟩

theorem Carved.trans {c c₁ c₂ : Carving} {s₁ s₂ : List Range}
    {t₁ t₂ : List (String × Option Range)} (h₁ : Carved c c₁ s₁ t₁) (h₂ : Carved c₁ c₂ s₂ t₂) :
    Carved c c₂ s₂ (t₁ ++ t₂) where
  segments := h₂.segments
  carved := by rw [h₂.carved, h₁.carved, List.filterMap_append, List.append_assoc]
  poolGuards := by rw [h₂.poolGuards, h₁.poolGuards, List.filterMap_append, List.append_assoc]
  subnetGuards := by
    rw [h₂.subnetGuards, h₁.subnetGuards, List.filterMap_append, List.append_assoc]

/-- One policy that becomes a class. -/
theorem carvePolicy_eq (optionsToKea : OptionsToKea) {context : String} {p : Policy}
    (h : ∀ r ∈ p.ipRanges, Readable r) {cls : ClassDict} {warnings : List String}
    (hclass : policyToClass optionsToKea p context = (some cls, warnings)) (c : Carving) :
    ∃ c', carvePolicy optionsToKea context c p = some c' ∧
      Carved c c' (takeFirst c.segments (p.ipRanges.filterMap parseRange)).1
        [(cls.name, (takeFirst c.segments (p.ipRanges.filterMap parseRange)).2)] := by
  obtain ⟨failed, hranges⟩ := carveRanges_eq p.ipRanges h c.segments
  rw [carvePolicy, hclass]
  dsimp only
  rw [hranges]
  cases htaken : (takeFirst c.segments (p.ipRanges.filterMap parseRange)).2 with
  | none => exact ⟨_, rfl, rfl, by simp, by simp, by simp⟩
  | some r =>
    obtain ⟨r', -, hr⟩ := List.mem_filterMap.mp (takeFirst_mem htaken).1
    obtain ⟨text, htext, -⟩ := readPool_poolText (writable_of_parseRange hr)
    refine ⟨_, by simp only [Option.bind_eq_bind, Option.bind_some, htext]; rfl, rfl, by simp, ?_,
      by simp⟩
    simp [htext]

/-- The loop over the policies carves for those that become classes. -/
theorem foldlM_carvePolicy (optionsToKea : OptionsToKea) (context : String)
    (policies : List Policy) (h : ∀ p ∈ policies, ∀ r ∈ p.ipRanges, Readable r) (c : Carving) :
    ∃ c', policies.foldlM (carvePolicy optionsToKea context) c = some c' ∧
      Carved c c' (carveAll c.segments (wantedBy optionsToKea context policies)).1
        (carveAll c.segments (wantedBy optionsToKea context policies)).2 := by
  induction policies generalizing c with
  | nil => exact ⟨c, rfl, rfl, by simp [wantedBy, carveAll], by simp [wantedBy, carveAll],
      by simp [wantedBy, carveAll]⟩
  | cons p policies ih =>
    rw [List.forall_mem_cons] at h
    rw [List.foldlM_cons]
    cases hclass : policyToClass optionsToKea p context with
    | mk cls warnings =>
      cases cls with
      | none =>
        have hstep : carvePolicy optionsToKea context c p =
            some { c with warnings := c.warnings ++ warnings } := by
          rw [carvePolicy, hclass]
        have hwanted : wantedBy optionsToKea context (p :: policies) =
            wantedBy optionsToKea context policies := by
          rw [wantedBy, List.filterMap_cons_none (by rw [hclass]; rfl), wantedBy]
        obtain ⟨c', hc', hcarved⟩ := ih h.2 { c with warnings := c.warnings ++ warnings }
        rw [hstep, hwanted]
        exact ⟨c', hc', hcarved.segments, hcarved.carved, hcarved.poolGuards,
          hcarved.subnetGuards⟩
      | some cls =>
        have hwanted : wantedBy optionsToKea context (p :: policies) =
            (cls.name, p.ipRanges.filterMap parseRange) ::
              wantedBy optionsToKea context policies := by
          rw [wantedBy, List.filterMap_cons_some (by rw [hclass]; rfl), wantedBy]
        obtain ⟨c₁, hc₁, hstep⟩ := carvePolicy_eq optionsToKea h.1 hclass c
        obtain ⟨c', hc', hrest⟩ := ih h.2 c₁
        rw [hstep.segments] at hrest
        rw [hwanted, carveAll, hc₁]
        exact ⟨c', hc', hstep.trans hrest⟩

/-! ## What a carving preserves -/

section Carve

variable {segments : List Range} {Free : ℤ → ℤ → Prop} {r g : Range}
  {wanted : List (String × List Range)}

/-- Where a range fits, one segment gives way to the pieces beside it. -/
theorem exists_carvePool (h : segments.any (fits r) = true) :
    ∃ l₁ g l₂, segments = l₁ ++ g :: l₂ ∧ (g.1 ≤ r.1 ∧ r.2 ≤ g.2) ∧
      (carvePool segments r).1 = l₁ ++ l₂ ++ ((if g.1 < r.1 then [(g.1, r.1 - 1)] else []) ++
        if r.2 < g.2 then [(r.2 + 1, g.2)] else []) := by
  obtain ⟨seg, hseg, hfits⟩ := List.any_eq_true.mp h
  obtain ⟨g, l₁, l₂, hl₁, hg, hsplit, herase⟩ := List.exists_of_eraseP hseg hfits
  have hfind : segments.find? (fits r) = some g := by
    rw [hsplit, List.find?_append, List.find?_eq_none.mpr (by simpa using hl₁), Option.none_or,
      List.find?_cons_of_pos hg]
  refine ⟨l₁, g, l₂, hsplit, by simpa [fits] using hg, ?_⟩
  rw [carvePool, hfind]
  dsimp only
  rw [herase]

/-- The pieces beside a range that is proper are what is left of the segment. -/
theorem pieces_eq_cut (hr : Proper r) (hg : g.1 ≤ r.1 ∧ r.2 ≤ g.2) :
    ((if g.1 < r.1 then [(g.1, r.1 - 1)] else []) ++
      if r.2 < g.2 then [(r.2 + 1, g.2)] else []) = cut r g := by
  unfold Proper at hr
  have hwithin : ¬ (r.2 < g.1 ∨ g.2 < r.1) := by omega
  rw [cut, if_neg hwithin]

/-- A carving of a proper range neither loses, adds, nor doubles an address. -/
theorem hits_carvePool (hr : Proper r) (h : segments.any (fits r) = true) (x : ℤ) :
    hits (carvePool segments r).1 x x + (if Holds r x x then 1 else 0) = hits segments x x := by
  obtain ⟨l₁, g, l₂, rfl, hg, hcarve⟩ := exists_carvePool h
  rw [hcarve, pieces_eq_cut hr hg, hits_carve _ _ hr hg]

theorem splits_carvePool (hs : Splits segments Free) (hr : Proper r)
    (h : segments.any (fits r) = true) : Splits (carvePool segments r).1 (Without Free r) := by
  obtain ⟨l₁, g, l₂, rfl, hg, hcarve⟩ := exists_carvePool h
  rw [hcarve, pieces_eq_cut hr hg]
  exact hs.carve hr hg

/-- What a carving leaves is proper and can be written. -/
theorem writable_carvePool (hs : ∀ g ∈ segments, Proper g ∧ Writable g) (hr : Writable r)
    (h : segments.any (fits r) = true) :
    ∀ g ∈ (carvePool segments r).1, Proper g ∧ Writable g := by
  obtain ⟨l₁, g, l₂, rfl, hg, hcarve⟩ := exists_carvePool h
  have hgood := hs g (by simp)
  intro g' hg'
  rw [hcarve, List.mem_append] at hg'
  rcases hg' with hg' | hg'
  · refine hs g' ?_
    rcases List.mem_append.mp hg' with hg' | hg'
    · exact List.mem_append_left _ hg'
    · exact List.mem_append_right _ (List.mem_cons_of_mem _ hg')
  · unfold Proper Writable at *
    rcases List.mem_append.mp hg' with hg' | hg'
    · split_ifs at hg' with hlt
      · rw [List.mem_singleton] at hg'
        subst hg'
        dsimp only
        omega
      · cases hg'
    · split_ifs at hg' with hlt
      · rw [List.mem_singleton] at hg'
        subst hg'
        dsimp only
        omega
      · cases hg'

variable (segments) in
/-- The segments that a policy finds, and the range that it takes. -/
theorem takeFirst_cases (ranges : List Range) :
    takeFirst segments ranges = (segments, none) ∨
      ∃ r ∈ ranges, segments.any (fits r) = true ∧
        takeFirst segments ranges = ((carvePool segments r).1, some r) := by
  unfold takeFirst
  cases hfind : ranges.find? fun r => segments.any (fits r) with
  | none => exact .inl rfl
  | some r =>
    exact .inr ⟨r, List.mem_of_find?_eq_some hfind,
      List.find?_some (p := fun r => segments.any (fits r)) hfind, rfl⟩

/-- The ranges that were taken. -/
def takenOf (taken : List (String × Option Range)) : List Range := taken.filterMap Prod.snd

@[simp] theorem takenOf_nil : takenOf [] = [] := rfl

@[simp] theorem takenOf_cons_none {name : String} {taken : List (String × Option Range)} :
    takenOf ((name, none) :: taken) = takenOf taken := rfl

@[simp] theorem takenOf_cons_some {name : String} {taken : List (String × Option Range)} :
    takenOf ((name, some r) :: taken) = r :: takenOf taken := rfl

theorem writable_carveAll (wanted : List (String × List Range)) (hs : ∀ g ∈ segments, Proper g ∧ Writable g)
    (hw : ∀ w ∈ wanted, ∀ r ∈ w.2, Writable r) :
    (∀ g ∈ (carveAll segments wanted).1, Proper g ∧ Writable g) ∧
      ∀ r ∈ takenOf (carveAll segments wanted).2, Writable r := by
  induction wanted generalizing segments with
  | nil => exact ⟨hs, by simp [takenOf, carveAll]⟩
  | cons w wanted ih =>
    rw [List.forall_mem_cons] at hw
    rw [carveAll]
    rcases takeFirst_cases segments w.2 with htake | ⟨r, hr, hany, htake⟩
    · rw [htake]
      exact ih hs hw.2
    · rw [htake]
      obtain ⟨hleft, htaken⟩ := ih (writable_carvePool hs (hw.1 r hr) hany) hw.2
      refine ⟨hleft, ?_⟩
      rw [takenOf_cons_some, List.forall_mem_cons]
      exact ⟨hw.1 r hr, htaken⟩

/-- Carvings of proper ranges neither lose, add, nor double an address. -/
theorem hits_carveAll (h : ∀ r ∈ takenOf (carveAll segments wanted).2, Proper r) (x : ℤ) :
    hits ((carveAll segments wanted).1 ++ takenOf (carveAll segments wanted).2) x x =
      hits segments x x := by
  induction wanted generalizing segments with
  | nil => simp [takenOf, carveAll]
  | cons w wanted ih =>
    rw [carveAll] at h ⊢
    rcases takeFirst_cases segments w.2 with htake | ⟨r, hr, hany, htake⟩
    · rw [htake] at h ⊢
      exact ih h
    · rw [htake] at h ⊢
      dsimp only at h ⊢
      rw [takenOf_cons_some, List.forall_mem_cons] at h
      have hrest := ih h.2
      have hstep := hits_carvePool h.1 hany x
      rw [hits_append] at hrest
      rw [takenOf_cons_some, hits_append, hits_cons]
      omega

end Carve

/-! ## The ranges that are taken, by the addresses that are free -/

open Classical in
/-- The ranges that policies take where each takes the first of its ranges that fits among the
addresses that are still free. -/
noncomputable def taken (Free : ℤ → ℤ → Prop) : List (String × List Range) → List Range
  | [] => []
  | w :: wanted =>
    match w.2.find? fun r => decide (Fits Free r) with
    | none => taken Free wanted
    | some r => r :: taken (Without Free r) wanted

/-- A range fits some segment when it fits among the free addresses. -/
theorem any_fits_iff {segments : List Range} {Free : ℤ → ℤ → Prop} (hs : Splits segments Free)
    (r : Range) : segments.any (fits r) = true ↔ Fits Free r := by
  rw [← hs.exists_iff_fits, List.any_eq_true]
  simp only [fits, decide_eq_true_eq]

/-- The carving takes proper ranges alone when the ranges that are taken are proper. -/
theorem proper_taken_iff {segments : List Range} {Free : ℤ → ℤ → Prop} (hs : Splits segments Free)
    (wanted : List (String × List Range)) :
    (∀ r ∈ takenOf (carveAll segments wanted).2, Proper r) ↔ ∀ r ∈ taken Free wanted, Proper r := by
  induction wanted generalizing segments Free with
  | nil => simp [carveAll, taken]
  | cons w wanted ih =>
    classical
    have hfind : (w.2.find? fun r => decide (Fits Free r)) =
        w.2.find? fun r => segments.any (fits r) := by
      congr 1
      funext r
      rw [Bool.eq_iff_iff, decide_eq_true_eq, any_fits_iff hs]
    rw [carveAll, taken, takeFirst]
    cases htake : w.2.find? fun r => segments.any (fits r) with
    | none =>
      rw [hfind, htake]
      exact ih hs
    | some r =>
      have hany : segments.any (fits r) = true :=
        List.find?_some (p := fun r => segments.any (fits r)) htake
      rw [hfind, htake]
      dsimp only
      rw [takenOf_cons_some, List.forall_mem_cons, List.forall_mem_cons]
      exact and_congr_right fun hr => ih (splits_carvePool hs hr hany)

/-! ## The partition -/

theorem wantedBy_writable {optionsToKea : OptionsToKea} {context : String}
    {policies : List Policy} :
    ∀ w ∈ wantedBy optionsToKea context policies, ∀ r ∈ w.2, Writable r := by
  intro w hw r hr
  obtain ⟨p, -, hp⟩ := List.mem_filterMap.mp hw
  obtain ⟨cls, -, rfl⟩ := Option.map_eq_some_iff.mp hp
  obtain ⟨texts, -, htexts⟩ := List.mem_filterMap.mp hr
  exact writable_of_parseRange htexts

/-- The segments of a scope before any is carved. -/
def Scope.segments (scope : Scope) : List Range :=
  (split [scope.range] scope.blocks).filter fun g => decide (g.1 ≤ g.2)

theorem Scope.Valid.writable {scope : Scope} (h : scope.Valid) :
    ∀ g ∈ scope.segments, Proper g ∧ Writable g := by
  intro g hg
  obtain ⟨hmem, hproper⟩ := List.mem_filter.mp hg
  have hle : g.1 ≤ g.2 := of_decide_eq_true hproper
  obtain ⟨b, hb⟩ := Option.isSome_iff_exists.mp h.range
  have hrange : scope.range = b := by rw [Scope.range, hb, Option.getD_some]
  have hwritable := writable_of_parseRange hb
  -- the segment lies within the range
  have hpos := (hits_split_pos hle).mp (hits_pos.mpr ⟨g, hmem, le_rfl, le_rfl⟩)
  obtain ⟨r, hr, hholds⟩ := hits_pos.mp hpos.1
  rw [List.mem_singleton.mp hr, hrange] at hholds
  unfold Holds Writable at *
  exact ⟨hle, by omega⟩

/-- What `scope_to_subnet` makes of a scope: its pools are the texts of the segments that are left and
of the ranges that were taken, and can be read. -/
theorem scopeToSubnet_eq (optionsToKea : OptionsToKea) {scope : Scope} (h : scope.Valid)
    (jenId : ℤ) :
    ∃ m, scopeToSubnet optionsToKea scope jenId = some m ∧
      ((carveAll scope.segments (scope.wanted optionsToKea)).1 ++
        takenOf (carveAll scope.segments (scope.wanted optionsToKea)).2).mapM poolText =
          some m.subnet.pools ∧
      m.subnet.pools.mapM readPool =
        some ((carveAll scope.segments (scope.wanted optionsToKea)).1 ++
          takenOf (carveAll scope.segments (scope.wanted optionsToKea)).2) ∧
      m.poolGuards = (carveAll scope.segments (scope.wanted optionsToKea)).2.filterMap (fun t =>
        t.2.bind fun r => (poolText r).map fun text => (text, t.1)) ∧
      m.subnetGuards = (carveAll scope.segments (scope.wanted optionsToKea)).2.filterMap fun t =>
        if t.2.isNone then some t.1 else none := by
  have hin : ∀ p ∈ scope.inOrder, ∀ r ∈ p.ipRanges, Readable r :=
    fun p hp => h.policies p ((List.mem_insertionSort _).mp hp)
  obtain ⟨c, hc, hcarved⟩ := foldlM_carvePolicy optionsToKea ("scope " ++ scope.name) scope.inOrder
    hin { segments := scope.segments, warnings :=
      if scope.segments = [] ∧ scope.exclusions ≠ [] then
        ["scope " ++ scope.name ++
          ": exclusions cover the entire range — no pools (reservation-only subnet)"]
      else [] }
  obtain ⟨hleft, htaken⟩ := writable_carveAll (scope.wanted optionsToKea) h.writable wantedBy_writable
  obtain ⟨texts, htexts, hread⟩ := mapM_readPool (l := c.segments ++ c.carved) (by
    intro b hb
    rw [hcarved.segments, hcarved.carved, List.nil_append] at hb
    rcases List.mem_append.mp hb with hb | hb
    · exact (hleft b hb).2
    · exact htaken b hb)
  have hsplit := splitPoolByExclusions_eq h
  rw [scopeToSubnet, hsplit]
  dsimp only [Option.bind_eq_bind, Option.bind_some]
  rw [Scope.segments] at hc
  rw [hc, Option.bind_some, htexts, Option.bind_some]
  have hpools : c.segments ++ c.carved =
      (carveAll scope.segments (scope.wanted optionsToKea)).1 ++
        takenOf (carveAll scope.segments (scope.wanted optionsToKea)).2 := by
    rw [hcarved.segments, hcarved.carved, List.nil_append]
    rfl
  rw [hpools] at htexts hread
  exact ⟨_, rfl, htexts, hread, hcarved.poolGuards, hcarved.subnetGuards⟩

/-- The pools that a scope has come to. -/
def Scope.pools (optionsToKea : OptionsToKea) (scope : Scope) : List Range :=
  (carveAll scope.segments (scope.wanted optionsToKea)).1 ++
    takenOf (carveAll scope.segments (scope.wanted optionsToKea)).2

/-- What nothing inverted gets into. -/
theorem partition_pools_iff (optionsToKea : OptionsToKea) {scope : Scope} (h : scope.Valid) :
    Partition (scope.pools optionsToKea)
        (fun x => Holds scope.range x x ∧ ∀ b ∈ scope.blocks, ¬ Holds b x x) ↔
      ¬ Doubled [scope.range] scope.blocks ∧
        ∀ r ∈ taken (Beside scope.range scope.blocks) (scope.wanted optionsToKea), Proper r := by
  have hwritten := writable_carveAll (scope.wanted optionsToKea) h.writable wantedBy_writable
  have hbeside : ∀ x, Beside scope.range scope.blocks x x ↔
      Holds scope.range x x ∧ ∀ b ∈ scope.blocks, ¬ Holds b x x := by
    intro x
    refine and_congr_right fun _ => forall₂_congr fun b _ => ?_
    unfold Misses Holds
    omega
  constructor
  · intro hpart
    have hproper : ∀ r ∈ takenOf (carveAll scope.segments (scope.wanted optionsToKea)).2,
        Proper r := fun r hr => hpart.proper r (List.mem_append_right _ hr)
    have honce := pairwise_disjoint_iff.mp hpart.disjoint
    -- proper carvings double nothing, so nothing was doubled before them
    have hdoubled : ¬ Doubled [scope.range] scope.blocks := by
      intro hdoubled
      obtain ⟨x, hx⟩ := exists_one_lt_hits_split.mpr (.inr hdoubled)
      have hle := honce x
      rw [Scope.pools, hits_carveAll hproper, Scope.segments, hits_filter le_rfl] at hle
      omega
    exact ⟨hdoubled, (proper_taken_iff (splits_split hdoubled) _).mp hproper⟩
  · rintro ⟨hdoubled, htaken⟩
    have hs : Splits scope.segments (Beside scope.range scope.blocks) := splits_split hdoubled
    have hproper := (proper_taken_iff hs _).mpr htaken
    refine ⟨fun r hr => ?_, pairwise_disjoint_iff.mpr fun x => ?_, fun x => ?_⟩
    · rcases List.mem_append.mp hr with hr | hr
      · exact (hwritten.1 r hr).1
      · exact hproper r hr
    · rw [Scope.pools, hits_carveAll hproper]
      exact hs.once x
    · rw [← hits_pos, Scope.pools, hits_carveAll hproper, hs.free x x le_rfl, hbeside]

/-- The pools of a valid scope are a partition of its range without its exclusions exactly when no
exclusion is inverted within what the earlier ones leave of the range and around an address that no
later one takes, and every range that is taken for a policy is proper. -/
theorem scopeToSubnet_partition_iff (optionsToKea : OptionsToKea) (scope : Scope) (jenId : ℤ)
    (h : scope.Valid) :
    ∃ m pools, scopeToSubnet optionsToKea scope jenId = some m ∧
      m.subnet.pools.mapM readPool = some pools ∧
      ((Partition pools fun x => Holds scope.range x x ∧ ∀ b ∈ scope.blocks, ¬ Holds b x x) ↔
        ¬ Doubled [scope.range] scope.blocks ∧
          ∀ r ∈ taken (Beside scope.range scope.blocks) (scope.wanted optionsToKea), Proper r) := by
  obtain ⟨m, hm, -, hpools, -, -⟩ := scopeToSubnet_eq optionsToKea h jenId
  exact ⟨m, _, hm, hpools, partition_pools_iff optionsToKea h⟩

/-- A scope whose exclusion has its ends the wrong way round. -/
def invertedScope : Scope where
  scopeId := "10.0.0.0"
  subnetMask := "255.255.255.0"
  name := "office"
  state := "Active"
  startRange := "10.0.0.0"
  endRange := "10.0.0.20"
  leaseSeconds := 3600
  exclusions := [("10.0.0.15", "10.0.0.5")]

/-- A conversion of option values that makes nothing of them. -/
def noOptions : OptionsToKea := fun _ _ => ⟨[], [], []⟩

theorem scopeToSubnet_partition_iff_inverted :
    ∃ m pools, scopeToSubnet noOptions invertedScope 1 = some m ∧
      m.subnet.pools.mapM readPool = some pools ∧
      ((Partition pools fun x => Holds invertedScope.range x x ∧
          ∀ b ∈ invertedScope.blocks, ¬ Holds b x x) ↔
        ¬ Doubled [invertedScope.range] invertedScope.blocks ∧
          ∀ r ∈ taken (Beside invertedScope.range invertedScope.blocks)
            (invertedScope.wanted noOptions), Proper r) :=
  scopeToSubnet_partition_iff noOptions invertedScope 1 ⟨by decide, by decide, by decide⟩

/-- The exclusion doubles the addresses between its ends. -/
theorem invertedScope_overlap :
    ∃ m pools, scopeToSubnet noOptions invertedScope 1 = some m ∧
      m.subnet.pools = ["10.0.0.0 - 10.0.0.14", "10.0.0.6 - 10.0.0.20"] ∧
      m.subnet.pools.mapM readPool = some pools ∧
      ¬ Partition pools fun x => Holds invertedScope.range x x ∧
        ∀ b ∈ invertedScope.blocks, ¬ Holds b x x := by
  have hmap : (scopeToSubnet noOptions invertedScope 1).map (fun m => m.subnet.pools) =
      some ["10.0.0.0 - 10.0.0.14", "10.0.0.6 - 10.0.0.20"] := by decide
  obtain ⟨m, hm, hpools⟩ := Option.map_eq_some_iff.mp hmap
  have hread : m.subnet.pools.mapM readPool =
      some [(167772160, 167772174), (167772166, 167772180)] := by
    rw [hpools]
    decide
  refine ⟨m, _, hm, hpools, hread, fun h => ?_⟩
  have honce := pairwise_disjoint_iff.mp h.disjoint 167772170
  exact absurd honce (by decide)

end JenKea.Import
