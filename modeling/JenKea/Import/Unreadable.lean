import JenKea.Import.Pools

/-!
# Texts that are no addresses

Which texts of a scope `scope_to_subnet` turns into integers: the ends of its range, every exclusion
with two ends, and of each policy that becomes a class the ranges up to the first that fits a pool. It
raises exactly when one of these is no IPv4 address.
-/

namespace JenKea.Import

open JenKea.Interval

/-- The ranges of a policy are blank or addresses, as far as they are looked at: up to the first that
fits a segment. -/
def readsRanges (segments : List Range) : List (String × String) → Bool
  | [] => true
  | r :: ranges =>
    if r.1 = "" ∨ r.2 = "" then readsRanges segments ranges
    else match parseRange r with
    | none => false
    | some b => segments.any (fits b) || readsRanges segments ranges

/-- So are those of each policy that becomes a class, with the segments that the ones before it have
left. -/
def readsPolicies (optionsToKea : OptionsToKea) (context : String) : List Range → List Policy → Bool
  | _, [] => true
  | segments, p :: policies =>
    match (policyToClass optionsToKea p context).1 with
    | none => readsPolicies optionsToKea context segments policies
    | some _ => readsRanges segments p.ipRanges &&
        readsPolicies optionsToKea context
          (takeFirst segments (p.ipRanges.filterMap parseRange)).1 policies

/-- What is looked at of a scope can be read. -/
structure Scope.Reads (optionsToKea : OptionsToKea) (scope : Scope) : Prop where
  range : (parseRange (scope.startRange, scope.endRange)).isSome
  exclusions : ∀ r ∈ scope.exclusions, Readable r
  policies : readsPolicies optionsToKea ("scope " ++ scope.name) scope.segments scope.inOrder = true

/-! ## Exclusions -/

/-- An exclusion that cannot be read stops the loop. -/
theorem foldlM_exclusions_eq_none {exclusions : List (String × String)} {r : String × String}
    (hr : r ∈ exclusions) (h : ¬ Readable r) (segments : List Range) :
    exclusions.foldlM (fun segments exc =>
      if exc.1 = "" ∨ exc.2 = "" then some segments
      else do
        let es ← Ipv4.parse exc.1
        let ee ← Ipv4.parse exc.2
        return segments.flatMap fun seg =>
          if ee < seg.1 ∨ seg.2 < es then [seg]
          else (if seg.1 < es then [(seg.1, es - 1)] else []) ++
            if ee < seg.2 then [(ee + 1, seg.2)] else []) segments = none := by
  induction exclusions generalizing segments with
  | nil => cases hr
  | cons exc exclusions ih =>
    rw [List.foldlM_cons, Option.bind_eq_bind, Option.bind_eq_none_iff]
    intro next hnext
    rcases List.mem_cons.mp hr with rfl | hr
    · have hblank : ¬ (r.1 = "" ∨ r.2 = "") := fun hblank => h (hblank.imp_right .inl)
      have hrange : parseRange r ≠ none := by
        rw [if_neg hblank] at hnext
        simp only [Option.bind_eq_bind, Option.bind_eq_some_iff] at hnext
        obtain ⟨s, hs, e, he, -⟩ := hnext
        simp [parseRange, hs, he]
      exact absurd (.inr (.inr (Option.isSome_iff_ne_none.mpr hrange))) h
    · exact ih hr next

/-- The loop over the exclusions goes through exactly when each can be read. -/
theorem splitPoolByExclusions_isSome_iff (scope : Scope) :
    (splitPoolByExclusions scope.startRange scope.endRange scope.exclusions).isSome = true ↔
      (parseRange (scope.startRange, scope.endRange)).isSome ∧ ∀ r ∈ scope.exclusions, Readable r := by
  constructor
  · intro h
    obtain ⟨segments, hsegments⟩ := Option.isSome_iff_exists.mp h
    simp only [splitPoolByExclusions, Option.bind_eq_bind, Option.bind_eq_some_iff] at hsegments
    obtain ⟨s, hs, e, he, left, hleft, -⟩ := hsegments
    refine ⟨by simp [parseRange, hs, he], fun r hr => ?_⟩
    by_contra hread
    have hnone := foldlM_exclusions_eq_none hr hread [(s, e)]
    dsimp only [Option.bind_eq_bind] at hnone hleft
    rw [hnone] at hleft
    cases hleft
  · rintro ⟨hrange, hexclusions⟩
    have hvalid : ({ scope with policies := [] } : Scope).Valid := ⟨hrange, hexclusions, by simp⟩
    exact Option.isSome_iff_exists.mpr
      ⟨_, @splitPoolByExclusions_eq { scope with policies := [] } hvalid⟩

/-- What the loop leaves of the range. -/
theorem splitPoolByExclusions_spec {scope : Scope}
    (hrange : (parseRange (scope.startRange, scope.endRange)).isSome)
    (hexclusions : ∀ r ∈ scope.exclusions, Readable r) :
    splitPoolByExclusions scope.startRange scope.endRange scope.exclusions = some scope.segments ∧
      ∀ g ∈ scope.segments, Proper g ∧ Writable g := by
  have hvalid : ({ scope with policies := [] } : Scope).Valid := ⟨hrange, hexclusions, by simp⟩
  exact ⟨@splitPoolByExclusions_eq { scope with policies := [] } hvalid, hvalid.writable⟩

/-! ## Policies -/

/-- The loop over the ranges of a policy goes through exactly when they can be read as far as they are
looked at; then it takes the first that fits. -/
theorem carveRanges_reads (segments : List Range) (ranges : List (String × String)) :
    if readsRanges segments ranges = true then ∃ failed, carveRanges segments ranges =
      some ((takeFirst segments (ranges.filterMap parseRange)).1,
        (takeFirst segments (ranges.filterMap parseRange)).2, failed)
    else carveRanges segments ranges = none := by
  induction ranges with
  | nil => exact ⟨[], rfl⟩
  | cons r ranges ih =>
    rw [readsRanges, carveRanges]
    by_cases hblank : r.1 = "" ∨ r.2 = ""
    · simp only [if_pos hblank, List.filterMap_cons_none (parseRange_eq_none hblank)]
      exact ih
    · simp only [if_neg hblank]
      cases hrange : parseRange r with
      | none =>
        simp only [Bool.false_eq_true, if_false]
        cases hs : Ipv4.parse r.1 with
        | none => rfl
        | some s =>
          cases he : Ipv4.parse r.2 with
          | none => rfl
          | some e => simp [parseRange, hs, he] at hrange
      | some b =>
        obtain ⟨hs, he, -⟩ := parseRange_eq_some hrange
        rw [hs, he, List.filterMap_cons_some hrange]
        dsimp only [Option.bind_eq_bind, Option.bind_some]
        by_cases hany : segments.any (fits b) = true
        · obtain ⟨left, hleft⟩ := carvePool_eq_some hany
          have hreads : (segments.any (fits b) || readsRanges segments ranges) = true := by
            rw [hany, Bool.true_or]
          rw [if_pos hreads, takeFirst_cons_pos hany, hleft]
          exact ⟨[], rfl⟩
        · have hnone : segments.any (fits b) = false := by simpa using hany
          have hor : (segments.any (fits b) || readsRanges segments ranges) =
              readsRanges segments ranges := by
            rw [hnone, Bool.false_or]
          rw [takeFirst_cons_neg hnone, carvePool_eq_none hnone]
          by_cases hreads : readsRanges segments ranges = true
          · rw [if_pos hreads] at ih
            rw [if_pos (hor.trans hreads)]
            obtain ⟨failed, hfailed⟩ := ih
            exact ⟨r :: failed, by rw [hfailed]; rfl⟩
          · rw [if_neg hreads] at ih
            rw [if_neg fun h => hreads (hor.symm.trans h), ih]
            rfl

/-- What has been carved can be written. -/
structure Carving.Fine (c : Carving) : Prop where
  segments : ∀ g ∈ c.segments, Proper g ∧ Writable g
  carved : ∀ r ∈ c.carved, Writable r

section Policies

variable {optionsToKea : OptionsToKea} {context : String}

/-- A policy that becomes no class is passed over. -/
theorem carvePolicy_eq_warned {p : Policy} (c : Carving)
    (hclass : (policyToClass optionsToKea p context).1 = none) :
    ∃ c', carvePolicy optionsToKea context c p = some c' ∧ c'.segments = c.segments ∧
      c'.carved = c.carved := by
  cases hpolicy : policyToClass optionsToKea p context with
  | mk cls warnings =>
    rw [hpolicy] at hclass
    obtain rfl : cls = none := hclass
    exact ⟨{ c with warnings := c.warnings ++ warnings }, by rw [carvePolicy, hpolicy], rfl, rfl⟩

/-- The ranges of a policy that becomes a class are read as far as they are looked at. -/
theorem carvePolicy_reads {p : Policy} {c : Carving} (hc : c.Fine) {cls : ClassDict}
    (hclass : (policyToClass optionsToKea p context).1 = some cls) :
    if readsRanges c.segments p.ipRanges = true then
      ∃ c', carvePolicy optionsToKea context c p = some c' ∧ c'.Fine ∧
        c'.segments = (takeFirst c.segments (p.ipRanges.filterMap parseRange)).1
    else carvePolicy optionsToKea context c p = none := by
  have hranges := carveRanges_reads c.segments p.ipRanges
  cases hpolicy : policyToClass optionsToKea p context with
  | mk found warnings =>
    rw [hpolicy] at hclass
    obtain rfl : found = some cls := hclass
    rw [carvePolicy, hpolicy]
    by_cases hreads : readsRanges c.segments p.ipRanges = true
    · rw [if_pos hreads] at hranges ⊢
      obtain ⟨failed, hfailed⟩ := hranges
      dsimp only
      rw [hfailed]
      rcases takeFirst_cases c.segments (p.ipRanges.filterMap parseRange) with
        htake | ⟨r, hr, hany, htake⟩
      · rw [htake]
        exact ⟨_, rfl, ⟨hc.segments, hc.carved⟩, rfl⟩
      · rw [htake]
        obtain ⟨texts, -, htexts⟩ := List.mem_filterMap.mp hr
        have hwritable := writable_of_parseRange htexts
        obtain ⟨text, htext, -⟩ := readPool_poolText hwritable
        refine ⟨_, by simp only [Option.bind_eq_bind, Option.bind_some, htext]; rfl, ?_, rfl⟩
        refine ⟨writable_carvePool hc.segments hwritable hany, fun b hb => ?_⟩
        rcases List.mem_append.mp hb with hb | hb
        · exact hc.carved b hb
        · exact List.mem_singleton.mp hb ▸ hwritable
    · rw [if_neg hreads] at hranges ⊢
      dsimp only
      rw [hranges]
      rfl

/-- The loop over the policies goes through exactly when their ranges can be read as far as they are
looked at. -/
theorem foldlM_carvePolicy_reads (policies : List Policy) {c : Carving} (hc : c.Fine) :
    if readsPolicies optionsToKea context c.segments policies = true then
      ∃ c', policies.foldlM (carvePolicy optionsToKea context) c = some c' ∧ c'.Fine
    else policies.foldlM (carvePolicy optionsToKea context) c = none := by
  induction policies generalizing c with
  | nil => exact ⟨c, rfl, hc⟩
  | cons p policies ih =>
    rw [readsPolicies, List.foldlM_cons]
    cases hclass : (policyToClass optionsToKea p context).1 with
    | none =>
      obtain ⟨c', hstep, hsegments, hcarved⟩ := carvePolicy_eq_warned c hclass
      have hc' : c'.Fine := ⟨hsegments ▸ hc.segments, hcarved ▸ hc.carved⟩
      have hrest := ih hc'
      rw [hsegments] at hrest
      rw [hstep]
      exact hrest
    | some cls =>
      have hfirst := carvePolicy_reads hc hclass
      by_cases hreads : readsRanges c.segments p.ipRanges = true
      · rw [if_pos hreads] at hfirst
        obtain ⟨c', hstep, hc', hsegments⟩ := hfirst
        have hrest := ih hc'
        rw [hsegments] at hrest
        rw [hstep]
        simp only [hreads, Bool.true_and]
        exact hrest
      · rw [if_neg hreads] at hfirst
        rw [hfirst, if_neg (by simp [hreads])]
        rfl

/-- Where the walk through the policies of a scope starts. -/
def Scope.start (scope : Scope) : Carving where
  segments := scope.segments
  warnings :=
    if scope.segments = [] ∧ scope.exclusions ≠ [] then
      ["scope " ++ scope.name ++
        ": exclusions cover the entire range — no pools (reservation-only subnet)"]
    else []

/-- `scope_to_subnet` returns exactly when what it looks at can be read. -/
theorem scopeToSubnet_isSome_iff (scope : Scope) (jenId : ℤ) :
    (scopeToSubnet optionsToKea scope jenId).isSome = true ↔ scope.Reads optionsToKea := by
  have hsplit := splitPoolByExclusions_isSome_iff scope
  by_cases h : (parseRange (scope.startRange, scope.endRange)).isSome ∧
      ∀ r ∈ scope.exclusions, Readable r
  · obtain ⟨heq, hwritable⟩ := splitPoolByExclusions_spec h.1 h.2
    have hpolicies := @foldlM_carvePolicy_reads optionsToKea ("scope " ++ scope.name) scope.inOrder
      scope.start ⟨hwritable, by simp [Scope.start]⟩
    have hreads : scope.Reads optionsToKea ↔
        readsPolicies optionsToKea ("scope " ++ scope.name) scope.start.segments scope.inOrder = true :=
      ⟨fun hreads => hreads.policies, fun hreads => ⟨h.1, h.2, hreads⟩⟩
    rw [scopeToSubnet, heq, hreads]
    dsimp only [Option.bind_eq_bind, Option.bind_some]
    split_ifs at hpolicies with hall
    · obtain ⟨c, hc, hfine⟩ := hpolicies
      obtain ⟨texts, htexts, -⟩ := mapM_readPool (l := c.segments ++ c.carved) (by
        intro b hb
        rcases List.mem_append.mp hb with hb | hb
        · exact (hfine.segments b hb).2
        · exact hfine.carved b hb)
      rw [Scope.start] at hc
      rw [hc, Option.bind_some, htexts, Option.bind_some]
      exact ⟨fun _ => hall, fun _ => rfl⟩
    · rw [Scope.start] at hpolicies
      rw [hpolicies]
      exact ⟨fun hsome => absurd hsome (by simp), fun hreads => absurd hreads hall⟩
  · have hnone : splitPoolByExclusions scope.startRange scope.endRange scope.exclusions = none := by
      rw [← Option.not_isSome_iff_eq_none, hsplit]
      exact h
    rw [scopeToSubnet, hnone]
    exact ⟨fun hsome => absurd hsome (by simp), fun hreads => absurd ⟨hreads.range, hreads.exclusions⟩ h⟩

end Policies

end JenKea.Import
