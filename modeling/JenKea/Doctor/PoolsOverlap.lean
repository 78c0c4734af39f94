import JenKea.Explain.Classes
import JenKea.Explain.Reservations
import JenKea.Lib.Grouping
import JenKea.Lib.Neighbours
import JenKea.Lib.PyEq
import JenKea.Subnets.Pools

/-!
# Overlapping pools

`_check_pools_overlap` of `jen/services/config_doctor.py`. The pools of a subnet, and those of the subnets of a
shared network, are sorted by their addresses, and every one is compared with the one after it. Where any two
overlap two neighbours do, so that something is reported; but a pool that only a wide one reaches, over the pools
between the two, meets no neighbour and is not named.
-/

namespace JenKea.Doctor

open Json Import Explain JenKea.Interval Subnets

/-! ## The check -/

/-- A readable pool, with the id of its subnet and its text. -/
structure Row where
  range : Range
  subnet : Json
  pool : String
  deriving DecidableEq

/-- A finding, by the two pools that its text names, each with its subnet. -/
structure Finding where
  first : Row
  second : Row
  deriving DecidableEq

/-- The readable pools of a subnet. -/
def poolRows (s : SubnetEntry) : List Row :=
  s.pools.filterMap fun p =>
    match lookup "pool" p with
    | some (.str text) => (parsePool text none).map fun r => ⟨r, valueOf "id" s.fields, text⟩
    | _ => none

/-- `_ranges`. -/
def ranges (subnets : List SubnetEntry) : List Row :=
  (subnets.flatMap poolRows).insertionSort fun a b => le a.range b.range

/-- The subnets that have no name of a shared network with them. -/
def topSubnets (cfg : Config) : List SubnetEntry :=
  (cfg.iterSubnet4.filter fun x => x.2 = .null).map Prod.fst

/-- `seen_networks`: the subnets of each name. -/
def seenNetworks (cfg : Config) : List (Json × List SubnetEntry) :=
  Grouping.groups pyEq ((cfg.iterSubnet4.filter fun x => x.2 ≠ .null).map Prod.swap)

/-- `groups`. -/
def poolGroups (cfg : Config) : List (List SubnetEntry) :=
  (topSubnets cfg).map (fun s => [s]) ++ (seenNetworks cfg).map Prod.snd

/-- The findings of a group. -/
def groupFindings (group : List SubnetEntry) : List Finding :=
  (neighbours (ranges group)).filterMap fun p =>
    if p.2.range.1 ≤ p.1.range.2 then some ⟨p.1, p.2⟩ else none

/-- `_check_pools_overlap`. It raises where the name of a shared network cannot be a key. -/
def checkPoolsOverlap (cfg : Config) : Option (List Finding) :=
  if cfg.iterSubnet4.any fun x => isUnhashable x.2 then none
  else some ((poolGroups cfg).flatMap groupFindings)

/-! ## What is to be named -/

/-- The subnets among which no two pools may overlap: each at the top, and those of each shared network. -/
def scopes (cfg : Config) : List (List SubnetEntry) :=
  cfg.dhcp4.subnets.map (fun s => [s]) ++ cfg.dhcp4.networks.map NetworkEntry.subnets

/-- The pool has an address in common with another one of its subnet or of its shared network. -/
def Overlapping (cfg : Config) (row : Row) : Prop :=
  ∃ scope ∈ scopes cfg, Overlaps Row.range (scope.flatMap poolRows) row

/-- Something is reported just where two pools overlap, and every pool that overlaps is named. -/
structure NamesOverlaps (cfg : Config) (findings : List Finding) : Prop where
  reported : findings ≠ [] ↔ ∃ row, Overlapping cfg row
  named : ∀ row, Overlapping cfg row → ∃ f ∈ findings, f.first = row ∨ f.second = row

/-- Two shared networks of one name have a pool each that share an address. -/
def Across (cfg : Config) : Prop :=
  ∃ n n', [n, n'].Sublist cfg.dhcp4.networks ∧ NetworkEntry.name n ≠ .null ∧
    (NetworkEntry.name n).pyEq (NetworkEntry.name n') = true ∧
    ∃ r ∈ n.subnets.flatMap poolRows, ∃ r' ∈ n'.subnets.flatMap poolRows, Share r.range r'.range

/-- Every pool that overlaps meets the one before it or the one after it, in the order of the addresses; and
pools overlap within a subnet or a shared network where they overlap across two shared networks of one name. -/
structure Adjacent (cfg : Config) : Prop where
  beside : ∀ row, Overlapping cfg row →
    ∃ group ∈ poolGroups cfg, ∃ p ∈ neighbours (ranges group), Meets Row.range p ∧ (p.1 = row ∨ p.2 = row)
  across : Across cfg → ∃ row, Overlapping cfg row

section Groups

variable {cfg : Config} {group : List SubnetEntry} {row : Row}

theorem proper_of_mem_poolRows {s : SubnetEntry} (h : row ∈ poolRows s) : Proper row.range := by
  obtain ⟨p, -, hp⟩ := List.mem_filterMap.mp h
  split at hp
  · next text htext =>
    obtain ⟨r, hr, rfl⟩ := Option.map_eq_some_iff.mp hp
    exact proper_of_parsePool hr
  · cases hp

theorem ranges_perm (subnets : List SubnetEntry) : (ranges subnets).Perm (subnets.flatMap poolRows) :=
  List.perm_insertionSort _ _

/-- The pools of a group stand in the order of their first addresses. -/
theorem ordered_ranges (subnets : List SubnetEntry) : Interval.Ordered Row.range (ranges subnets) := by
  have htotal : Std.Total fun a b : Row => le a.range b.range = true := ⟨fun a b => by
    simp only [le, decide_eq_true_eq]
    omega⟩
  have htrans : IsTrans Row fun a b => le a.range b.range = true := ⟨fun a b c => by
    simp only [le, decide_eq_true_eq]
    omega⟩
  refine ⟨fun row hrow => ?_, ?_⟩
  · obtain ⟨s, -, hs⟩ := List.mem_flatMap.mp ((ranges_perm subnets).mem_iff.mp hrow)
    exact proper_of_mem_poolRows hs
  · refine (List.pairwise_insertionSort (fun a b : Row => le a.range b.range = true) _).imp ?_
    intro a b hab
    simp only [le, decide_eq_true_eq] at hab
    omega

/-- The findings of a group are its neighbours that meet. -/
theorem mem_groupFindings {f : Finding} :
    f ∈ groupFindings group ↔ (f.first, f.second) ∈ neighbours (ranges group) ∧ Meets Row.range (f.first, f.second) := by
  unfold groupFindings
  rw [List.mem_filterMap]
  constructor
  · rintro ⟨p, hp, hf⟩
    split_ifs at hf with hmeets
    rw [← Option.some.inj hf]
    exact ⟨hp, hmeets⟩
  · rintro ⟨hp, hmeets⟩
    exact ⟨(f.first, f.second), hp, if_pos hmeets⟩

/-- Something is found in a group just where two of its pools overlap. -/
theorem groupFindings_ne_nil :
    groupFindings group ≠ [] ↔ ∃ row, Overlaps Row.range (group.flatMap poolRows) row := by
  have hperm := ranges_perm group
  have hrows : (∃ row, Overlaps Row.range (ranges group) row) ↔ ∃ row, Overlaps Row.range (group.flatMap poolRows) row :=
    ⟨fun ⟨row, h⟩ => ⟨row, h.of_perm hperm⟩, fun ⟨row, h⟩ => ⟨row, h.of_perm hperm.symm⟩⟩
  rw [← hrows, ← exists_meets_iff (ordered_ranges group)]
  constructor
  · intro h
    obtain ⟨f, hf⟩ := List.exists_mem_of_ne_nil _ h
    exact ⟨_, mem_groupFindings.mp hf⟩
  · rintro ⟨p, hp⟩
    exact List.ne_nil_of_mem (mem_groupFindings (f := ⟨p.1, p.2⟩) |>.mpr hp)

/-- The rows of the section, each subnet with the name of its shared network. -/
theorem keys_seenNetworks (h : (cfg.iterSubnet4.any fun x => isUnhashable x.2) = false) :
    Grouping.Keys pyEq ((cfg.iterSubnet4.filter fun x => x.2 ≠ .null).map Prod.swap) := by
  have hwf : ∀ x ∈ (cfg.iterSubnet4.filter fun x => x.2 ≠ .null).map Prod.swap, x.1.WF := by
    intro x hx
    obtain ⟨y, hy, rfl⟩ := List.mem_map.mp hx
    have hhash := List.any_eq_false.mp h y (List.mem_filter.mp hy).1
    show Json.WF y.2
    cases hname : y.2 with
    | arr xs =>
      rw [hname] at hhash
      exact absurd rfl hhash
    | obj fs =>
      rw [hname] at hhash
      exact absurd rfl hhash
    | null | bool _ | int _ | float _ | str _ => trivial
  exact ⟨fun x hx => pyEq_self _ (hwf x hx), fun x hx y hy => pyEq_symm (hwf x hx) (hwf y hy),
    fun _ _ _ hij hjk => pyEq_trans hij hjk⟩

/-- The shared networks of a name. -/
def networksNamed (cfg : Config) (k : Json) : List NetworkEntry :=
  cfg.dhcp4.networks.filter fun n => decide (NetworkEntry.name n ≠ .null) && k.pyEq (NetworkEntry.name n)

theorem named_networks (k : Json) (networks : List NetworkEntry) :
    ((((networks.flatMap fun n => n.subnets.map fun s => (s, NetworkEntry.name n)).filter
        fun x => decide (x.2 ≠ .null)).map Prod.swap).filter fun x => k.pyEq x.1).map Prod.snd =
      (networks.filter fun n => decide (NetworkEntry.name n ≠ .null) && k.pyEq (NetworkEntry.name n)).flatMap
        NetworkEntry.subnets := by
  induction networks with
  | nil => rfl
  | cons n networks ih =>
    rw [List.flatMap_cons, List.filter_append, List.map_append, List.filter_append, List.map_append, ih]
    by_cases hname : NetworkEntry.name n = .null
    · simp [List.filter_map, Function.comp_def, hname]
    · cases hk : k.pyEq (NetworkEntry.name n) <;> simp [List.filter_map, Function.comp_def, hname, hk]

/-- The subnets of a name are those of the shared networks of that name. -/
theorem eq_of_mem_seenNetworks (hkeys : Grouping.Keys pyEq ((cfg.iterSubnet4.filter fun x => x.2 ≠ .null).map Prod.swap))
    {k : Json} (h : (k, group) ∈ seenNetworks cfg) : group = (networksNamed cfg k).flatMap NetworkEntry.subnets := by
  have hmembers := (Grouping.grouped hkeys).members (k, group) h
  have htop : ((cfg.dhcp4.subnets.map fun s => (s, Json.null)).filter fun x => decide (x.2 ≠ .null)) = [] := by
    simp [List.filter_map, Function.comp_def]
  have hlist : cfg.iterSubnet4.filter (fun x => decide (x.2 ≠ .null)) =
      (cfg.dhcp4.networks.flatMap fun n => n.subnets.map fun s => (s, NetworkEntry.name n)).filter
        fun x => decide (x.2 ≠ .null) := by
    unfold Config.iterSubnet4
    rw [List.filter_append, htop, List.nil_append]
  rw [hlist] at hmembers
  exact hmembers.trans (named_networks k _)

theorem eq_null_of_pyEq {v : Json} (h : v.pyEq .null = true) : v = .null := by
  cases v with
  | null => rfl
  | str _ | arr _ | obj _ => cases h
  | bool _ | int _ | float _ =>
    have hnumber : (_ == none) = true := h
    cases hnumber

/-- Two entries are apart. -/
abbrev Apart (a b : Row) : Prop := ¬ Share a.range b.range

/-- Some pool overlaps just where those of a scope are not all apart. -/
theorem exists_overlapping_iff :
    (∃ row, Overlapping cfg row) ↔ ∃ scope ∈ scopes cfg, ¬ (scope.flatMap poolRows).Pairwise Apart := by
  constructor
  · rintro ⟨row, scope, hscope, hrow⟩
    exact ⟨scope, hscope, exists_overlaps_iff.mp ⟨row, hrow⟩⟩
  · rintro ⟨scope, hscope, hrows⟩
    obtain ⟨row, hrow⟩ := exists_overlaps_iff.mpr hrows
    exact ⟨row, scope, hscope, hrow⟩

/-- A network with a pool has a row in the section, with the name of the network. -/
theorem mem_keys_of_row {n : NetworkEntry} (hn : n ∈ cfg.dhcp4.networks) (hname : NetworkEntry.name n ≠ .null)
    (hrow : row ∈ n.subnets.flatMap poolRows) :
    ∃ s, (NetworkEntry.name n, s) ∈ (cfg.iterSubnet4.filter fun x => x.2 ≠ .null).map Prod.swap := by
  obtain ⟨s, hs, -⟩ := List.mem_flatMap.mp hrow
  refine ⟨s, List.mem_map.mpr ⟨(s, NetworkEntry.name n), List.mem_filter.mpr ⟨?_, by simp [hname]⟩, rfl⟩⟩
  unfold Config.iterSubnet4
  rw [List.mem_append]
  exact .inr (List.mem_flatMap.mpr ⟨n, hn, List.mem_map_of_mem hs⟩)

/-- Where the pools of a group are not apart, those of a scope are not, or two networks of one name overlap. -/
theorem overlap_of_group (hkeys : Grouping.Keys pyEq ((cfg.iterSubnet4.filter fun x => x.2 ≠ .null).map Prod.swap))
    (hgroup : group ∈ poolGroups cfg) (h : ¬ (group.flatMap poolRows).Pairwise Apart) :
    (∃ row, Overlapping cfg row) ∨ Across cfg := by
  rw [exists_overlapping_iff]
  rcases List.mem_append.mp hgroup with hgroup | hgroup
  · -- one subnet, at the top or in a network without a name
    obtain ⟨s, hs, rfl⟩ := List.mem_map.mp hgroup
    obtain ⟨⟨s', name⟩, hx, rfl⟩ := List.mem_map.mp hs
    rw [List.flatMap_singleton] at h
    left
    rcases List.mem_append.mp (List.mem_filter.mp hx).1 with hx | hx
    · obtain ⟨t, ht, heq⟩ := List.mem_map.mp hx
      obtain ⟨rfl, -⟩ := Prod.mk.inj heq
      refine ⟨[t], List.mem_append_left _ (List.mem_map.mpr ⟨t, ht, rfl⟩), ?_⟩
      rw [List.flatMap_singleton]
      exact h
    · obtain ⟨n, hn, hx⟩ := List.mem_flatMap.mp hx
      obtain ⟨t, ht, heq⟩ := List.mem_map.mp hx
      obtain ⟨rfl, -⟩ := Prod.mk.inj heq
      refine ⟨n.subnets, List.mem_append_right _ (List.mem_map_of_mem hn), fun hpairwise => h ?_⟩
      exact (List.pairwise_flatMap.mp hpairwise).1 t ht
  · -- the networks of one name
    obtain ⟨⟨k, group'⟩, hk, rfl⟩ := List.mem_map.mp hgroup
    rw [eq_of_mem_seenNetworks hkeys hk, List.flatMap_assoc, List.pairwise_flatMap] at h
    by_cases hwithin : ∀ n ∈ networksNamed cfg k, (n.subnets.flatMap poolRows).Pairwise Apart
    · right
      have hacross := not_and.mp h hwithin
      rw [List.pairwise_iff_forall_sublist] at hacross
      push Not at hacross
      obtain ⟨n, n', hsublist, r, hr, r', hr', hshare⟩ := hacross
      have hn := hsublist.subset List.mem_cons_self
      have hn' := hsublist.subset (List.mem_cons_of_mem n List.mem_cons_self)
      obtain ⟨hmem, htest⟩ := List.mem_filter.mp hn
      obtain ⟨hmem', htest'⟩ := List.mem_filter.mp hn'
      obtain ⟨hname, hsame⟩ := Bool.and_eq_true_iff.mp htest
      obtain ⟨-, hsame'⟩ := Bool.and_eq_true_iff.mp htest'
      have hne : NetworkEntry.name n ≠ .null := of_decide_eq_true hname
      obtain ⟨s, hs⟩ := mem_keys_of_row hmem hne hr
      obtain ⟨x, hx, hkey⟩ := (Grouping.grouped hkeys).keys _ hk
      have hback : (NetworkEntry.name n).pyEq k = true := by
        dsimp only at hkey
        rw [← hkey] at hsame ⊢
        exact hkeys.symm x hx _ hs hsame
      exact ⟨n, n', hsublist.trans List.filter_sublist, hne, pyEq_trans hback hsame', r, hr, r', hr',
        hshare⟩
    · left
      push Not at hwithin
      obtain ⟨n, hn, hrows⟩ := hwithin
      exact ⟨n.subnets, List.mem_append_right _ (List.mem_map_of_mem (List.mem_filter.mp hn).1), hrows⟩

/-- Where two networks of one name overlap, the pools of a group are not apart. -/
theorem group_of_across (hkeys : Grouping.Keys pyEq ((cfg.iterSubnet4.filter fun x => x.2 ≠ .null).map Prod.swap))
    (h : Across cfg) : ∃ group ∈ poolGroups cfg, ¬ (group.flatMap poolRows).Pairwise Apart := by
  obtain ⟨n, n', hsublist, hname, hsame, r, hr, r', hr', hshare⟩ := h
  have hname' : NetworkEntry.name n' ≠ .null := by
    intro hnull
    rw [hnull] at hsame
    exact hname (eq_null_of_pyEq hsame)
  obtain ⟨s, hs⟩ := mem_keys_of_row (hsublist.subset List.mem_cons_self) hname hr
  obtain ⟨⟨k, group⟩, hk, hcovers⟩ := (Grouping.grouped hkeys).covered _ hs
  refine ⟨group, List.mem_append_right _ (List.mem_map_of_mem hk), ?_⟩
  rw [eq_of_mem_seenNetworks hkeys hk, List.flatMap_assoc, List.pairwise_flatMap]
  rintro ⟨-, hacross⟩
  have htest : ∀ m ∈ [n, n'], (decide (NetworkEntry.name m ≠ .null) && k.pyEq (NetworkEntry.name m)) = true := by
    rw [List.forall_mem_cons, List.forall_mem_singleton, Bool.and_eq_true_iff, Bool.and_eq_true_iff]
    exact ⟨⟨decide_eq_true hname, hcovers⟩, decide_eq_true hname', pyEq_trans hcovers hsame⟩
  have hsublist' : [n, n'].Sublist (networksNamed cfg k) := by
    have hfilter := hsublist.filter fun m => decide (NetworkEntry.name m ≠ .null) && k.pyEq (NetworkEntry.name m)
    rw [List.filter_eq_self.mpr htest] at hfilter
    exact hfilter
  exact List.pairwise_iff_forall_sublist.mp hacross hsublist' r hr r' hr' hshare

end Groups

/-- Every overlap is reported, and every pool that overlaps is named, just where every such pool meets a neighbour
of its own. -/
theorem namesOverlaps_iff {cfg : Config} {findings : List Finding} (h : checkPoolsOverlap cfg = some findings) :
    NamesOverlaps cfg findings ↔ Adjacent cfg := by
  unfold checkPoolsOverlap at h
  split_ifs at h with hunhashable
  obtain rfl := Option.some.inj h
  have hkeys := keys_seenNetworks (Bool.not_eq_true _ ▸ hunhashable)
  have hnamed : ∀ row, (∃ f ∈ (poolGroups cfg).flatMap groupFindings, f.first = row ∨ f.second = row) ↔
      ∃ group ∈ poolGroups cfg, ∃ p ∈ neighbours (ranges group), Meets Row.range p ∧ (p.1 = row ∨ p.2 = row) := by
    intro row
    constructor
    · rintro ⟨f, hf, hrow⟩
      obtain ⟨group, hgroup, hf⟩ := List.mem_flatMap.mp hf
      obtain ⟨hp, hmeets⟩ := mem_groupFindings.mp hf
      exact ⟨group, hgroup, _, hp, hmeets, hrow⟩
    · rintro ⟨group, hgroup, p, hp, hmeets, hrow⟩
      exact ⟨⟨p.1, p.2⟩, List.mem_flatMap.mpr ⟨group, hgroup, mem_groupFindings.mpr ⟨hp, hmeets⟩⟩, hrow⟩
  have hreported : (poolGroups cfg).flatMap groupFindings ≠ [] ↔
      ∃ group ∈ poolGroups cfg, ¬ (group.flatMap poolRows).Pairwise Apart := by
    rw [Ne, List.flatMap_eq_nil_iff]
    push Not
    simp only [groupFindings_ne_nil, exists_overlaps_iff]
  constructor
  · intro hnames
    refine ⟨fun row hrow => (hnamed row).mp (hnames.named row hrow), fun hacross => ?_⟩
    exact hnames.reported.mp (hreported.mpr (group_of_across hkeys hacross))
  · intro hadjacent
    refine ⟨⟨fun hne => ?_, ?_⟩, fun row hrow => (hnamed row).mpr (hadjacent.beside row hrow)⟩
    · obtain ⟨group, hgroup, hrows⟩ := hreported.mp hne
      rcases overlap_of_group hkeys hgroup hrows with hrow | hacross
      · exact hrow
      · exact hadjacent.across hacross
    · rintro ⟨row, hrow⟩
      obtain ⟨f, hf, -⟩ := (hnamed row).mpr (hadjacent.beside row hrow)
      exact List.ne_nil_of_mem hf

/-- A section with one subnet. -/
def oneSubnet (pools : List String) : Config :=
  { fields := [], dhcp4 := { subnets :=
      [{ fields := [("id", .int 1), ("subnet", .str "10.0.0.0/24")],
         pools := pools.map fun text => [("pool", .str text)] }] } }

/-- Two pools that overlap. -/
def twoPools : Config := oneSubnet ["10.0.0.40 - 10.0.0.60", "10.0.0.1 - 10.0.0.50"]

/-- The finding for the two pools. -/
def twoPoolsFinding : Finding :=
  ⟨⟨(167772161, 167772210), .int 1, "10.0.0.1 - 10.0.0.50"⟩, ⟨(167772200, 167772220), .int 1, "10.0.0.40 - 10.0.0.60"⟩⟩

/-- Both of the two pools are named. -/
theorem twoPools_named : NamesOverlaps twoPools [twoPoolsFinding] := by
  have hcheck : checkPoolsOverlap twoPools = some [twoPoolsFinding] := by decide
  have hrows : ∀ scope ∈ scopes twoPools, scope.flatMap poolRows = [twoPoolsFinding.second, twoPoolsFinding.first] := by
    decide
  refine (namesOverlaps_iff hcheck).mpr ⟨?_, ?_⟩
  · rintro row ⟨scope, hscope, rest, hperm, -⟩
    have hrow : row ∈ scope.flatMap poolRows := hperm.mem_iff.mpr List.mem_cons_self
    rw [hrows scope hscope] at hrow
    refine ⟨twoPools.dhcp4.subnets, by decide, (twoPoolsFinding.first, twoPoolsFinding.second), by decide,
      by unfold Meets; decide, ?_⟩
    rcases List.mem_cons.mp hrow with rfl | hrow
    · exact .inr rfl
    · exact .inl (List.mem_singleton.mp hrow).symm
  · rintro ⟨n, n', hsublist, -⟩
    cases hsublist

/-- A wide pool holds two others, of which it is next to one alone. -/
def nestedPools : Config := oneSubnet ["10.0.0.1 - 10.0.0.100", "10.0.0.2 - 10.0.0.3", "10.0.0.50 - 10.0.0.60"]

/-- The rows of the three pools, in the order of the section. -/
def nestedRows : List Row :=
  [⟨(167772161, 167772260), .int 1, "10.0.0.1 - 10.0.0.100"⟩, ⟨(167772162, 167772163), .int 1, "10.0.0.2 - 10.0.0.3"⟩]

/-- The pool that is not next to the wide one. -/
def unnamedPool : Row := ⟨(167772210, 167772220), .int 1, "10.0.0.50 - 10.0.0.60"⟩

/-- The third pool lies in the first one, and is named nowhere. -/
theorem nested_unnamed :
    ¬ ∀ (cfg : Config) (findings : List Finding), checkPoolsOverlap cfg = some findings → NamesOverlaps cfg findings := by
  intro h
  have hcheck : checkPoolsOverlap nestedPools =
      some [⟨⟨(167772161, 167772260), .int 1, "10.0.0.1 - 10.0.0.100"⟩,
        ⟨(167772162, 167772163), .int 1, "10.0.0.2 - 10.0.0.3"⟩⟩] := by
    decide
  have hrows : nestedPools.dhcp4.subnets.flatMap poolRows = nestedRows ++ [unnamedPool] := by decide
  have hshare : Share (unnamedPool.range) (167772161, 167772260) :=
    (share_iff (by unfold Proper; decide) (by unfold Proper; decide)).mpr (by decide)
  have hoverlapping : Overlapping nestedPools unnamedPool := by
    refine ⟨nestedPools.dhcp4.subnets, by decide, nestedRows, ?_, _, List.mem_cons_self, hshare⟩
    rw [hrows]
    exact List.perm_append_comm
  obtain ⟨f, hf, hrow⟩ := (h _ _ hcheck).named _ hoverlapping
  rw [List.mem_singleton.mp hf] at hrow
  revert hrow
  decide

end JenKea.Doctor
