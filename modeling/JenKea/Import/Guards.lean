import JenKea.Import.Pools
import JenKea.Lib.Loop

/-!
# The guards of a scope

Which addresses the class of a policy guards. The code takes the policies of a scope in turn, and
carves for each the first of its ranges that lies within one free segment; the others stay as they
are. So the ranges of a policy are honoured exactly when the range that is carved (or another that is
carved for the same class) holds every address that the scope can hand out of them, or the class guards
the whole subnet, and no range is carved for the class that lies outside the policy's.
-/

namespace JenKea.Import

open JenKea.Interval

/-! ## What it means for a policy to be honoured -/

/-- The address is in the range of the scope and in none of its exclusions. -/
def Scope.Holds (scope : Scope) (x : ℤ) : Prop :=
  Interval.Holds scope.range x x ∧ ∀ b ∈ scope.blocks, ¬ Interval.Holds b x x

/-- The address is in one of the ranges of the policy. -/
def Policy.Holds (p : Policy) (x : ℤ) : Prop :=
  ∃ r ∈ p.ipRanges.filterMap parseRange, Interval.Holds r x x

/-- The address is in a pool that the class guards. -/
def MappedScope.Guards (m : MappedScope) (name : String) (x : ℤ) : Prop :=
  ∃ text ∈ m.subnet.pools, (text, name) ∈ m.poolGuards ∧
    ∃ r, readPool text = some r ∧ Interval.Holds r x x

/-- The ranges of a policy are honoured by the class of this name. -/
structure MappedScope.Honours (m : MappedScope) (scope : Scope) (p : Policy) (name : String) :
    Prop where
  /-- What the scope can hand out of the ranges is guarded. -/
  covers : ∀ x, p.Holds x → scope.Holds x → name ∈ m.subnetGuards ∨ m.Guards name x
  /-- Nothing else is in a pool that the class guards. -/
  within : ∀ x, m.Guards name x → p.Holds x

/-! ## The turns of the policies -/

/-- A policy at its turn: the segments that no earlier policy has carved from, the name of its class,
and its ranges. -/
structure Turn where
  free : List Range
  name : String
  ranges : List Range

/-- The first range that lies within one free segment. -/
def Turn.first (t : Turn) : Option Range := t.ranges.find? fun r => t.free.any (fits r)

/-- The turns of the policies that become classes. -/
def turns (segments : List Range) : List (String × List Range) → List Turn
  | [] => []
  | w :: wanted => ⟨segments, w.1, w.2⟩ :: turns (takeFirst segments w.2).1 wanted

/-- The turns of a scope. -/
def Scope.turns (optionsToKea : OptionsToKea) (scope : Scope) : List Turn :=
  Import.turns scope.segments (scope.wanted optionsToKea)

/-- No range is carved, or each address of the scope in the ranges is in one that is carved for the
class; and what is carved for the class is in the ranges. -/
structure Turn.Settled (t : Turn) (turns : List Turn) (scope : Scope) : Prop where
  covers : (∃ t' ∈ turns, t'.name = t.name ∧ t'.first = none) ∨
    ∀ x, scope.Holds x → (∃ r ∈ t.ranges, Interval.Holds r x x) →
      ∃ t' ∈ turns, t'.name = t.name ∧ ∃ r, t'.first = some r ∧ Interval.Holds r x x
  within : ∀ t' ∈ turns, t'.name = t.name → ∀ r, t'.first = some r →
    ∀ x, Interval.Holds r x x → ∃ r' ∈ t.ranges, Interval.Holds r' x x

/-- Where no other policy becomes a class of this name, the policy is settled when no range of it
fits, or the first that does holds all that the scope can hand out of its ranges. -/
theorem Turn.settled_iff {t : Turn} {turns : List Turn} {scope : Scope} (ht : t ∈ turns)
    (hname : ∀ t' ∈ turns, t'.name = t.name → t' = t) :
    t.Settled turns scope ↔ ∀ r, t.first = some r →
      ∀ x, scope.Holds x → (∃ r' ∈ t.ranges, Interval.Holds r' x x) → Interval.Holds r x x := by
  have hmem : ∀ r, t.first = some r → r ∈ t.ranges := fun r hr => List.mem_of_find?_eq_some hr
  constructor
  · rintro ⟨hcovers, -⟩ r hr x hscope hx
    rcases hcovers with ⟨t', ht', heq, hnone⟩ | hcovers
    · rw [hname t' ht' heq, hr] at hnone
      cases hnone
    · obtain ⟨t', ht', heq, r', hr', hholds⟩ := hcovers x hscope hx
      rw [hname t' ht' heq, hr] at hr'
      rwa [Option.some.inj hr']
  · intro h
    constructor
    · cases hfirst : t.first with
      | none => exact .inl ⟨t, ht, rfl, hfirst⟩
      | some r => exact .inr fun x hscope hx => ⟨t, ht, rfl, r, hfirst, h r hfirst x hscope hx⟩
    · intro t' ht' heq r hr x hx
      rw [hname t' ht' heq] at hr
      exact ⟨r, hmem r hr, hx⟩

/-! ## The guards, by the turns -/

/-- What each policy has taken, by its turn. -/
theorem carveAll_turns (segments : List Range) (wanted : List (String × List Range)) :
    (carveAll segments wanted).2 = (turns segments wanted).map fun t => (t.name, t.first) := by
  induction wanted generalizing segments with
  | nil => rfl
  | cons w wanted ih =>
    have hfirst : (takeFirst segments w.2).2 = Turn.first ⟨segments, w.1, w.2⟩ := by
      rw [takeFirst, Turn.first]
      cases w.2.find? fun r => segments.any (fits r) <;> rfl
    rw [carveAll, turns, List.map_cons, ih, hfirst]

/-- Each policy that becomes a class has a turn. -/
theorem exists_turn (segments : List Range) (wanted : List (String × List Range)) :
    (∀ w ∈ wanted, ∃ t ∈ turns segments wanted, t.name = w.1 ∧ t.ranges = w.2) ∧
      ∀ t ∈ turns segments wanted, (t.name, t.ranges) ∈ wanted := by
  induction wanted generalizing segments with
  | nil => exact ⟨by simp, by simp [turns]⟩
  | cons w wanted ih =>
    obtain ⟨hturn, hwanted⟩ := ih (takeFirst segments w.2).1
    rw [turns]
    constructor
    · rw [List.forall_mem_cons]
      refine ⟨⟨_, List.mem_cons_self, rfl, rfl⟩, fun w' hw' => ?_⟩
      obtain ⟨t, ht, heq⟩ := hturn w' hw'
      exact ⟨t, List.mem_cons_of_mem _ ht, heq⟩
    · rw [List.forall_mem_cons]
      exact ⟨List.mem_cons_self, fun t ht => List.mem_cons_of_mem _ (hwanted t ht)⟩

section Guards

variable {optionsToKea : OptionsToKea} {scope : Scope}

variable (optionsToKea scope) in
/-- The class of a policy of the scope, by the turns. -/
theorem forall_policies_iff {P : (String × List Range) → Prop} :
    (∀ p ∈ scope.policies, ∀ cls,
      (policyToClass optionsToKea p ("scope " ++ scope.name)).1 = some cls →
        P (cls.name, p.ipRanges.filterMap parseRange)) ↔
      ∀ t ∈ scope.turns optionsToKea, P (t.name, t.ranges) := by
  have hwanted : (∀ p ∈ scope.policies, ∀ cls,
      (policyToClass optionsToKea p ("scope " ++ scope.name)).1 = some cls →
        P (cls.name, p.ipRanges.filterMap parseRange)) ↔
      ∀ w ∈ scope.wanted optionsToKea, P w := by
    simp only [Scope.wanted, wantedBy, List.mem_filterMap, Option.map_eq_some_iff, Scope.inOrder,
      List.mem_insertionSort]
    constructor
    · rintro h w ⟨p, hp, cls, hcls, rfl⟩
      exact h p hp cls hcls
    · exact fun h p hp cls hcls => h _ ⟨p, hp, cls, hcls, rfl⟩
  obtain ⟨hturn, hback⟩ := exists_turn scope.segments (scope.wanted optionsToKea)
  rw [hwanted]
  constructor
  · exact fun h t ht => h _ (hback t ht)
  · intro h w hw
    obtain ⟨t, ht, hname, hranges⟩ := hturn w hw
    have ht := h t ht
    rw [hname, hranges] at ht
    exact ht

variable (optionsToKea) in
/-- The guards that `scope_to_subnet` makes of a scope: a class guards the subnet where some policy of
it takes nothing, and the addresses that the policies of it have taken. -/
theorem exists_guards (h : scope.Valid) (jenId : ℤ) :
    ∃ m, scopeToSubnet optionsToKea scope jenId = some m ∧
      (∀ name, name ∈ m.subnetGuards ↔
        ∃ t ∈ scope.turns optionsToKea, t.name = name ∧ t.first = none) ∧
      ∀ name x, m.Guards name x ↔ ∃ t ∈ scope.turns optionsToKea, t.name = name ∧
        ∃ r, t.first = some r ∧ Interval.Holds r x x := by
  obtain ⟨m, hm, htexts, -, hpool, hsubnet⟩ := scopeToSubnet_eq optionsToKea h jenId
  have htaken := carveAll_turns scope.segments (scope.wanted optionsToKea)
  have hwritable := (writable_carveAll (scope.wanted optionsToKea) h.writable wantedBy_writable).2
  have hfirst : ∀ t ∈ scope.turns optionsToKea, ∀ r, t.first = some r →
      r ∈ takenOf (carveAll scope.segments (scope.wanted optionsToKea)).2 := by
    intro t ht r hr
    rw [htaken]
    exact List.mem_filterMap.mpr ⟨_, List.mem_map.mpr ⟨t, ht, rfl⟩, hr⟩
  refine ⟨m, hm, fun name => ?_, fun name x => ?_⟩
  · rw [hsubnet, htaken, List.mem_filterMap]
    constructor
    · rintro ⟨_, hmem, hname⟩
      obtain ⟨t, ht, rfl⟩ := List.mem_map.mp hmem
      dsimp only at hname
      split_ifs at hname with hnone
      exact ⟨t, ht, Option.some.inj hname, Option.isNone_iff_eq_none.mp hnone⟩
    · rintro ⟨t, ht, rfl, hnone⟩
      refine ⟨_, List.mem_map.mpr ⟨t, ht, rfl⟩, ?_⟩
      simp [hnone]
  · constructor
    · rintro ⟨text, -, hguard, r, hread, hx⟩
      rw [hpool, htaken, List.mem_filterMap] at hguard
      obtain ⟨_, hmem, hname⟩ := hguard
      obtain ⟨t, ht, rfl⟩ := List.mem_map.mp hmem
      simp only [Option.bind_eq_some_iff, Option.map_eq_some_iff, Prod.mk.injEq] at hname
      obtain ⟨r', hr', text', htext', rfl, hname⟩ := hname
      -- the text of the pool is read back as the range that was taken
      obtain ⟨text₀, htext₀, hread₀⟩ := readPool_poolText (hwritable r' (hfirst t ht r' hr'))
      obtain rfl : text₀ = text' := Option.some.inj (htext₀.symm.trans htext')
      obtain rfl : r' = r := Option.some.inj (hread₀.symm.trans hread)
      exact ⟨t, ht, hname, r', hr', hx⟩
    · rintro ⟨t, ht, rfl, r, hr, hx⟩
      have hmem := hfirst t ht r hr
      obtain ⟨text, htext, hread⟩ := readPool_poolText (hwritable r hmem)
      obtain ⟨text', htext', heq⟩ := Loop.exists_mem_of_mapM htexts r (List.mem_append_right _ hmem)
      obtain rfl : text = text' := Option.some.inj (htext.symm.trans heq)
      refine ⟨text, htext', ?_, r, hread, hx⟩
      rw [hpool, htaken, List.mem_filterMap]
      refine ⟨_, List.mem_map.mpr ⟨t, ht, rfl⟩, ?_⟩
      simp [hr, htext]

/-- The ranges of every policy of a scope that becomes a class are honoured exactly when each of the
policies is settled at its turn. -/
theorem scopeToSubnet_honours_iff (optionsToKea : OptionsToKea) (scope : Scope) (jenId : ℤ)
    (h : scope.Valid) :
    ∃ m, scopeToSubnet optionsToKea scope jenId = some m ∧
      ((∀ p ∈ scope.policies, ∀ cls,
          (policyToClass optionsToKea p ("scope " ++ scope.name)).1 = some cls →
            m.Honours scope p cls.name) ↔
        ∀ t ∈ scope.turns optionsToKea, t.Settled (scope.turns optionsToKea) scope) := by
  obtain ⟨m, hm, hsubnet, hpool⟩ := exists_guards optionsToKea h jenId
  refine ⟨m, hm, ?_⟩
  have hhonours : ∀ p name, m.Honours scope p name ↔
      Turn.Settled ⟨[], name, p.ipRanges.filterMap parseRange⟩ (scope.turns optionsToKea)
        scope := by
    intro p name
    constructor
    · rintro ⟨hcovers, hwithin⟩
      refine ⟨?_, fun t' ht' hname r hr x hx => hwithin x ((hpool name x).mpr ⟨t', ht', hname, r, hr, hx⟩)⟩
      by_cases hguard : name ∈ m.subnetGuards
      · exact .inl ((hsubnet name).mp hguard)
      · refine .inr fun x hscope hx => (hpool name x).mp ?_
        exact (hcovers x hx hscope).resolve_left hguard
    · rintro ⟨hcovers, hwithin⟩
      refine ⟨fun x hx hscope => ?_, fun x hx => ?_⟩
      · rcases hcovers with hnone | hcovers
        · exact .inl ((hsubnet name).mpr hnone)
        · exact .inr ((hpool name x).mpr (hcovers x hscope hx))
      · obtain ⟨t', ht', hname, r, hr, hholds⟩ := (hpool name x).mp hx
        exact hwithin t' ht' hname r hr x hholds
  have hsettled := forall_policies_iff optionsToKea scope
    (P := fun w => Turn.Settled ⟨[], w.1, w.2⟩ (scope.turns optionsToKea) scope)
  simp only [hhonours]
  rw [hsettled]
  exact forall₂_congr fun t _ => ⟨fun ht => ⟨ht.covers, ht.within⟩, fun ht => ⟨ht.covers, ht.within⟩⟩

end Guards

/-- A policy for phones that has two ranges. -/
def phonesPolicy : Policy where
  name := "phones"
  enabled := true
  processingOrder := 1
  condition := "AND"
  conditions := [⟨"VendorClass", "Equals", "phone"⟩]
  ipRanges := [("10.0.0.2", "10.0.0.4"), ("10.0.0.10", "10.0.0.12")]

/-- A scope with this policy alone. -/
def phonesScope : Scope where
  scopeId := "10.0.0.0"
  subnetMask := "255.255.255.0"
  name := "office"
  state := "Active"
  startRange := "10.0.0.0"
  endRange := "10.0.0.20"
  leaseSeconds := 3600
  policies := [phonesPolicy]

theorem scopeToSubnet_honours_iff_phones :
    ∃ m, scopeToSubnet noOptions phonesScope 1 = some m ∧
      ((∀ p ∈ phonesScope.policies, ∀ cls,
          (policyToClass noOptions p ("scope " ++ phonesScope.name)).1 = some cls →
            m.Honours phonesScope p cls.name) ↔
        ∀ t ∈ phonesScope.turns noOptions, t.Settled (phonesScope.turns noOptions) phonesScope) :=
  scopeToSubnet_honours_iff noOptions phonesScope 1 ⟨by decide, by decide, by decide⟩

/-- The second range of the policy is handed out to every client. -/
theorem phonesScope_unguarded :
    ∃ m, scopeToSubnet noOptions phonesScope 1 = some m ∧
      ∃ p ∈ phonesScope.policies, ∃ cls,
        (policyToClass noOptions p ("scope " ++ phonesScope.name)).1 = some cls ∧
          ¬ m.Honours phonesScope p cls.name := by
  have hmap : (scopeToSubnet noOptions phonesScope 1).map (fun m => (m.subnetGuards, m.poolGuards)) =
      some ([], [("10.0.0.2 - 10.0.0.4", "phones")]) := by decide +kernel
  obtain ⟨m, hm, hguards⟩ := Option.map_eq_some_iff.mp hmap
  obtain ⟨hsubnet, hpool⟩ := Prod.mk.inj hguards
  have hclass : (policyToClass noOptions phonesPolicy ("scope " ++ phonesScope.name)).1.map
      ClassDict.name = some "phones" := by decide +kernel
  obtain ⟨cls, hcls, hname⟩ := Option.map_eq_some_iff.mp hclass
  refine ⟨m, hm, phonesPolicy, List.mem_cons_self, cls, hcls, fun h => ?_⟩
  have hx := h.covers 167772170 ⟨(167772170, 167772172), by decide +kernel, by decide⟩
    ⟨by decide +kernel, by decide +kernel⟩
  rw [hname, hsubnet] at hx
  rcases hx with hx | ⟨text, -, hguard, r, hread, hholds⟩
  · cases hx
  · rw [hpool, List.mem_singleton] at hguard
    obtain ⟨rfl, -⟩ := Prod.mk.inj hguard
    have hpool : readPool "10.0.0.2 - 10.0.0.4" = some (167772162, 167772164) := by decide +kernel
    obtain rfl := Option.some.inj (hpool.symm.trans hread)
    exact absurd hholds (by decide)

end JenKea.Import
