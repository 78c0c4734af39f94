import JenKea.Import.Pools
import JenKea.Lib.Loop
import JenKea.Lib.Merge

/-!
# The ranges of a `dhcpd.conf` subnet

How `jen/services/isc_dhcp_import.py` turns the `range` statements and the `pool` blocks of a subnet
into a scope: the ranges are merged, the scope reaches from the first to the last of them, and the gaps
between them are its exclusions. The other statements of the block bear on none of this; what they come
to is a `Rest`.
-/

namespace JenKea.Import

open JenKea.Interval

/-! ## Statements -/

/-- A token. -/
structure Tok where
  text : String
  line : ℕ
  quoted : Bool := false
  deriving DecidableEq, Repr

/-- A statement: its words, and its block where it has one. -/
inductive Stmt where
  | mk (head : List Tok) (body : Option (List Stmt)) (line : ℕ)

namespace Stmt

def head : Stmt → List Tok
  | .mk head _ _ => head

def body : Stmt → Option (List Stmt)
  | .mk _ body _ => body

def line : Stmt → ℕ
  | .mk _ _ line => line

/-- The keyword. -/
def kw (st : Stmt) : String :=
  match st.head with
  | [] => ""
  | t :: _ => t.text.toLower

/-- The words. -/
def words (st : Stmt) : List String := st.head.map Tok.text

end Stmt

/-- The network of a subnet: its address and the length of its prefix. -/
structure Net where
  address : ℤ
  prefixLen : ℕ
  nonneg : 0 ≤ address
  le : address + 2 ^ (32 - prefixLen) ≤ 2 ^ 32

/-- The address is in the network. -/
def Net.holds (net : Net) (x : ℤ) : Bool :=
  decide (net.address ≤ x ∧ x < net.address + 2 ^ (32 - net.prefixLen))

/-- A range that a statement declares, and the line of the statement. -/
structure Declared where
  lo : ℤ
  hi : ℤ
  line : ℕ
  deriving DecidableEq, Repr

/-- The order of `ranges.sort()`. -/
def Declared.le (a b : Declared) : Bool :=
  decide (a.lo < b.lo ∨ a.lo = b.lo ∧ (a.hi < b.hi ∨ a.hi = b.hi ∧ a.line ≤ b.line))

/-- The range. -/
def Declared.range (d : Declared) : Range := (d.lo, d.hi)

/-- A `pool` block. -/
structure Pool where
  ranges : List Declared := []
  /-- The classes of `allow members of`, with the lines. -/
  allow : List (String × ℕ) := []
  deny : List (String × ℕ) := []
  line : ℕ
  deriving DecidableEq, Repr

/-- `valid_ip`: the text is an address of IPv4 or IPv6, between blanks. -/
def validIp (isIpv6 : String → Bool) (text : String) : Bool :=
  (Ipv4.parse (Text.strip text)).isSome || isIpv6 (Text.strip text)

/-- `add_range`: the range of a statement, if it is accepted. The outer `none` stands for the exception
at an address that is not one of IPv4. -/
def addRange (isIpv6 : String → Bool) (net : Net) (st : Stmt) : Option (Option Declared) :=
  let rw_ := st.words.tail.filter fun w => w.toLower != "dynamic-bootp"
  match rw_.head?, rw_.getLast? with
  | some first, some last =>
    if ¬ rw_.all (validIp isIpv6) then some none
    else do
      let a ← Ipv4.parse first
      let b ← Ipv4.parse last
      let lo := min a b
      let hi := max a b
      if ¬ (net.holds lo ∧ net.holds hi) then return none
      else return some ⟨lo, hi, st.line⟩
  | _, _ => some none

/-- What `allow`, `deny`, and `ignore` add to a pool. -/
def handleAllowDeny (pool : Pool) (st : Stmt) : Pool :=
  match st.words.map String.toLower, st.head.drop 3 with
  | verb :: "members" :: "of" :: _, name :: _ =>
    if verb = "allow" then { pool with allow := pool.allow ++ [(name.text, st.line)] }
    else if verb = "deny" then { pool with deny := pool.deny ++ [(name.text, st.line)] }
    else pool
  | _, _ => pool

/-- One statement of a `pool` block. -/
def poolStep (isIpv6 : String → Bool) (net : Net) (pool : Pool) (st : Stmt) : Option Pool :=
  if st.kw = "range" then do
    let declared ← addRange isIpv6 net st
    return { pool with ranges := pool.ranges ++ declared.toList }
  else if st.kw = "allow" ∨ st.kw = "deny" ∨ st.kw = "ignore" then some (handleAllowDeny pool st)
  else some pool

/-- A `pool` block. -/
def collectPool (isIpv6 : String → Bool) (net : Net) (body : List Stmt) (line : ℕ) :
    Option Pool :=
  body.foldlM (poolStep isIpv6 net) { line := line }

/-- The ranges and the pools of a subnet. -/
structure Collected where
  ranges : List Declared := []
  pools : List Pool := []
  deriving DecidableEq, Repr

/-- One statement of a `subnet` block. -/
def subnetStep (isIpv6 : String → Bool) (net : Net) (c : Collected) (st : Stmt) :
    Option Collected :=
  if st.kw = "range" then do
    let declared ← addRange isIpv6 net st
    return { c with ranges := c.ranges ++ declared.toList }
  else if st.kw = "pool" then
    match st.body with
    | none => some c
    | some body => do
      let pool ← collectPool isIpv6 net body st.line
      if pool.ranges = [] then return c
      else return { ranges := c.ranges ++ pool.ranges, pools := c.pools ++ [pool] }
  else some c

/-- A `subnet` block. -/
def collect (isIpv6 : String → Bool) (net : Net) (body : List Stmt) : Option Collected :=
  body.foldlM (subnetStep isIpv6 net) {}

/-! ## Ranges to a scope -/

/-- The ranges of a subnet in ascending order. -/
def sortRanges (ranges : List Declared) : List Range :=
  (ranges.insertionSort fun a b => a.le b).map Declared.range

/-- The ranges of a subnet, sorted and merged. -/
def mergeRanges (ranges : List Declared) : List Range :=
  ((sortRanges ranges).foldl mergeStep []).reverse

/-- What guards a pool: the name of the class, its rules, and the options. -/
structure Guard where
  name : String
  rules : List Rule
  combinator : Combinator
  negate : Bool
  options : Options

/-- The policy of a guarded range. -/
def guardPolicy (g : Guard) (d : Declared) (order : ℕ) : Option Policy := do
  let lo ← Ipv4.toText d.lo
  let hi ← Ipv4.toText d.hi
  return {
    name := g.name
    enabled := true
    processingOrder := order
    condition := if g.combinator = .any then "OR" else "AND"
    rules := g.rules
    negate := g.negate
    ipRanges := [(lo, hi)]
    options := g.options }

/-- One policy for each range of each guarded pool, in order, so that each carves its own pool. -/
def poolPolicies (guard : Pool → Option Guard) (pools : List Pool) : Option (List Policy) :=
  let guarded := pools.flatMap fun pool =>
    match guard pool with
    | none => []
    | some g => pool.ranges.map fun d => (g, d)
  (guarded.zipIdx 1).mapM fun a => guardPolicy a.1.1 a.1.2 a.2

/-- What the other statements of a subnet come to. -/
structure Rest where
  subnetMask : String
  name : String
  leaseSeconds : ℤ
  options : Options
  reservations : List Reservation
  nextServer : String
  bootFile : String

/-- The texts of a range. -/
def rangeTexts (r : Range) : Option (String × String) := do
  let s ← Ipv4.toText r.1
  let e ← Ipv4.toText r.2
  return (s, e)

/-- One span over the merged ranges, and the gaps between them as exclusions. Without a range the span
is the address of the network, which is excluded. -/
def span (net : Net) (merged : List Range) : Option ((String × String) × List (String × String)) :=
  match merged with
  | [] => do
    let address ← rangeTexts (net.address, net.address)
    return (address, [address])
  | first :: more => do
    let ends ← rangeTexts (first.1, ((first :: more).getLast (List.cons_ne_nil first more)).2)
    let exclusions ← (gaps (first :: more)).mapM rangeTexts
    return (ends, exclusions)

/-- The scope of a subnet. -/
def subnetScope (net : Net) (rest : Rest) (guard : Pool → Option Guard)
    (c : Collected) : Option Scope := do
  let (ends, exclusions) ← span net (mergeRanges c.ranges)
  let policies ← poolPolicies guard c.pools
  let scopeId ← Ipv4.toText net.address
  return {
    scopeId := scopeId
    subnetMask := rest.subnetMask
    name := rest.name
    state := "Active"
    startRange := ends.1
    endRange := ends.2
    leaseSeconds := rest.leaseSeconds
    exclusions := exclusions
    options := rest.options
    reservations := rest.reservations
    policies := policies
    nextServer := rest.nextServer
    bootFile := rest.bootFile }

/-! ## What is collected -/

/-- A range that is accepted lies in the network, its ends in order. -/
structure Declared.Accepted (net : Net) (d : Declared) : Prop where
  proper : d.lo ≤ d.hi
  lo : net.holds d.lo
  hi : net.holds d.hi

/-- The ranges of the subnet and of its pools are accepted. -/
structure Collected.Accepted (net : Net) (c : Collected) : Prop where
  ranges : ∀ d ∈ c.ranges, d.Accepted net
  pools : ∀ pool ∈ c.pools, ∀ d ∈ pool.ranges, d.Accepted net

section Collect

variable {isIpv6 : String → Bool} {net : Net}

theorem addRange_accepted {st : Stmt} {declared : Option Declared}
    (h : addRange isIpv6 net st = some declared) : ∀ d ∈ declared.toList, d.Accepted net := by
  intro d hd
  rw [Option.mem_toList] at hd
  obtain rfl := hd
  unfold addRange at h
  dsimp only at h
  split at h
  · split_ifs at h
    · simp only [Option.bind_eq_bind, Option.bind_eq_some_iff] at h
      obtain ⟨a, -, b, -, h⟩ := h
      split_ifs at h with hin
      · obtain rfl := Option.some.inj (Option.some.inj h)
        exact ⟨min_le_max, hin.1, hin.2⟩
      · cases h
    · cases h
  · cases h

theorem poolStep_accepted {pool pool' : Pool} {st : Stmt}
    (hpool : ∀ d ∈ pool.ranges, d.Accepted net) (h : poolStep isIpv6 net pool st = some pool') :
    ∀ d ∈ pool'.ranges, d.Accepted net := by
  unfold poolStep at h
  split_ifs at h
  · rw [Option.bind_eq_bind, Option.bind_eq_some_iff] at h
    obtain ⟨declared, hdeclared, h⟩ := h
    obtain rfl := Option.some.inj h
    intro d hd
    rcases List.mem_append.mp hd with hd | hd
    · exact hpool d hd
    · exact addRange_accepted hdeclared d hd
  · obtain rfl := Option.some.inj h
    have hranges : (handleAllowDeny pool st).ranges = pool.ranges := by
      unfold handleAllowDeny
      split
      · split_ifs <;> rfl
      · rfl
    rwa [hranges]
  · obtain rfl := Option.some.inj h
    exact hpool

theorem subnetStep_accepted {c c' : Collected} {st : Stmt} (hc : c.Accepted net)
    (h : subnetStep isIpv6 net c st = some c') : c'.Accepted net := by
  unfold subnetStep at h
  split_ifs at h
  · rw [Option.bind_eq_bind, Option.bind_eq_some_iff] at h
    obtain ⟨declared, hdeclared, h⟩ := h
    obtain rfl := Option.some.inj h
    refine ⟨fun d hd => ?_, hc.pools⟩
    rcases List.mem_append.mp hd with hd | hd
    · exact hc.ranges d hd
    · exact addRange_accepted hdeclared d hd
  · split at h
    · obtain rfl := Option.some.inj h
      exact hc
    · rw [Option.bind_eq_bind, Option.bind_eq_some_iff] at h
      obtain ⟨pool, hpool, h⟩ := h
      have haccepted : ∀ d ∈ pool.ranges, d.Accepted net :=
        Loop.foldlM_keeps (P := fun pool : Pool => ∀ d ∈ pool.ranges, d.Accepted net)
          (fun _ _ _ => poolStep_accepted) (by simp) hpool
      split_ifs at h
      · obtain rfl := Option.some.inj h
        exact hc
      · obtain rfl := Option.some.inj h
        refine ⟨fun d hd => ?_, fun pool' hpool' => ?_⟩
        · rcases List.mem_append.mp hd with hd | hd
          · exact hc.ranges d hd
          · exact haccepted d hd
        · rcases List.mem_append.mp hpool' with hpool' | hpool'
          · exact hc.pools pool' hpool'
          · rw [List.mem_singleton.mp hpool']
            exact haccepted
  · obtain rfl := Option.some.inj h
    exact hc

/-- What a subnet block comes to is accepted. -/
theorem collect_accepted {body : List Stmt} {c : Collected}
    (h : collect isIpv6 net body = some c) : c.Accepted net :=
  Loop.foldlM_keeps (fun _ _ _ => subnetStep_accepted) ⟨by simp, by simp⟩ h

end Collect

/-! ## What is merged -/

section Merge

variable {r : Range}

theorem mem_sortRanges {ranges : List Declared} :
    r ∈ sortRanges ranges ↔ ∃ d ∈ ranges, d.range = r := by
  rw [sortRanges, List.mem_map]
  exact exists_congr fun d => and_congr_left fun _ => List.mem_insertionSort _

theorem pairwise_sortRanges (ranges : List Declared) :
    (sortRanges ranges).Pairwise fun r r' => r.1 ≤ r'.1 := by
  have htotal : Std.Total fun a b : Declared => a.le b = true := ⟨fun a b => by
    simp only [Declared.le, decide_eq_true_eq]
    omega⟩
  have htrans : IsTrans Declared fun a b => a.le b = true := ⟨fun a b c => by
    simp only [Declared.le, decide_eq_true_eq]
    omega⟩
  have hsorted := List.pairwise_insertionSort (fun a b : Declared => a.le b = true) ranges
  rw [sortRanges, List.pairwise_map]
  refine hsorted.imp fun {a b} hab => ?_
  simp only [Declared.le, decide_eq_true_eq] at hab
  show a.lo ≤ b.lo
  omega

/-- The merged ranges hold what the ranges held, with a gap between each and the next. -/
theorem mergeRanges_spec {ranges : List Declared} (h : ∀ d ∈ ranges, d.lo ≤ d.hi) :
    Separated (mergeRanges ranges) ∧
      ∀ x, (∃ r ∈ mergeRanges ranges, Holds r x x) ↔ ∃ d ∈ ranges, d.lo ≤ x ∧ x ≤ d.hi := by
  have hproper : ∀ r ∈ sortRanges ranges, Proper r := by
    intro r hr
    obtain ⟨d, hd, rfl⟩ := mem_sortRanges.mp hr
    exact h d hd
  obtain ⟨hseparated, hunion⟩ := merge_spec hproper (pairwise_sortRanges ranges)
  refine ⟨hseparated, fun x => ?_⟩
  rw [show mergeRanges ranges = merge (sortRanges ranges) from rfl, hunion x]
  constructor
  · rintro ⟨r, hr, hholds⟩
    obtain ⟨d, hd, rfl⟩ := mem_sortRanges.mp hr
    exact ⟨d, hd, hholds⟩
  · rintro ⟨d, hd, hholds⟩
    exact ⟨_, mem_sortRanges.mpr ⟨d, hd, rfl⟩, hholds⟩

end Merge

/-! ## What is written -/

section Write

variable {net : Net} {r : Range}

theorem Net.bounds_of_holds {x : ℤ} (h : net.holds x) : 0 ≤ x ∧ x < 2 ^ 32 := by
  obtain ⟨hlo, hhi⟩ := of_decide_eq_true h
  exact ⟨net.nonneg.trans hlo, hhi.trans_le net.le⟩

/-- A range that is written as two texts is read back. -/
theorem exists_rangeTexts (h : Writable r) :
    ∃ texts, rangeTexts r = some texts ∧ parseRange texts = some r := by
  obtain ⟨s, hs⟩ := Ipv4.exists_toText ⟨h.1, h.2.1⟩
  obtain ⟨e, he⟩ := Ipv4.exists_toText h.2.2
  refine ⟨(s, e), by simp [rangeTexts, hs, he], ?_⟩
  simp [parseRange, Ipv4.parse_toText hs, Ipv4.parse_toText he]

theorem readable_of_parseRange {texts : String × String} (h : parseRange texts = some r) :
    Readable texts :=
  .inr (.inr (by rw [h]; rfl))

/-- The ranges that texts name. -/
theorem filterMap_parseRange {ranges : List Range} {texts : List (String × String)}
    (h : List.Forall₂ (fun r texts => parseRange texts = some r) ranges texts) :
    texts.filterMap parseRange = ranges ∧ ∀ t ∈ texts, Readable t := by
  induction h with
  | nil => simp
  | cons hhead htail ih =>
    rw [List.filterMap_cons_some hhead, ih.1, List.forall_mem_cons]
    exact ⟨rfl, readable_of_parseRange hhead, ih.2⟩

/-- The gaps between ranges that can be written can be written. -/
theorem writable_of_mem_gaps {a : Range} {l : List Range} (hs : Separated (a :: l))
    (hl : ∀ r ∈ a :: l, Writable r) {g : Range} (hg : g ∈ gaps (a :: l)) : Writable g := by
  induction l generalizing a with
  | nil => simp [gaps] at hg
  | cons b l ih =>
    have hab : a.2 + 1 < b.1 := List.rel_of_pairwise_cons hs.apart (by simp)
    rw [gaps_cons_cons, List.mem_cons] at hg
    rcases hg with rfl | hg
    · have ha := hl a (by simp)
      have hb := hl b (by simp)
      unfold Writable at *
      dsimp only
      omega
    · exact ih hs.tail (List.forall_mem_cons.mp hl).2 hg

/-- The outer range and the exclusions that a span names. -/
structure Spanned (net : Net) (merged : List Range) (ends : String × String)
    (exclusions : List (String × String)) (outer : Range) (blocks : List Range) : Prop where
  span : span net merged = some (ends, exclusions)
  namedOuter : parseRange ends = some outer
  readable : ∀ r ∈ exclusions, Readable r
  namedBlocks : exclusions.filterMap parseRange = blocks
  /-- The exclusions are not empty, and hold what no merged range holds. -/
  proper : ∀ b ∈ blocks, Proper b
  union : ∀ x, (Holds outer x x ∧ ∀ b ∈ blocks, ¬ Holds b x x) ↔ ∃ r ∈ merged, Holds r x x

variable (net) in
/-- The outer range without the gaps between the merged ranges is the merged ranges. -/
theorem exists_spanned {merged : List Range} (hs : Separated merged)
    (hw : ∀ r ∈ merged, Writable r) :
    ∃ ends exclusions outer blocks, Spanned net merged ends exclusions outer blocks := by
  cases merged with
  | nil =>
    have haddress : Writable (net.address, net.address) := by
      have hnonneg := net.nonneg
      have hle := net.le
      have hpos : (0 : ℤ) < 2 ^ (32 - net.prefixLen) := by positivity
      unfold Writable
      dsimp only
      omega
    obtain ⟨texts, htexts, hread⟩ := exists_rangeTexts haddress
    refine ⟨texts, [texts], _, [(net.address, net.address)], ?_, hread, ?_, ?_, ?_, ?_⟩
    · rw [span, htexts]
      rfl
    · simpa using readable_of_parseRange hread
    · rw [List.filterMap_cons_some hread, List.filterMap_nil]
    · simp [Proper]
    · intro x
      simp
  | cons first more =>
    have hlast := List.getLast_mem (List.cons_ne_nil first more)
    have houter : Writable
        (first.1, ((first :: more).getLast (List.cons_ne_nil first more)).2) := by
      have h₁ := hw first (by simp)
      have h₂ := hw _ hlast
      exact ⟨h₁.1, h₁.2.1, h₂.2.2⟩
    obtain ⟨ends, hends, hread⟩ := exists_rangeTexts houter
    obtain ⟨exclusions, hexclusions, hreads, -⟩ := Loop.exists_mapM (l := gaps (first :: more))
      fun g hg => exists_rangeTexts (writable_of_mem_gaps hs hw hg)
    obtain ⟨hblocks, hreadable⟩ := filterMap_parseRange hreads
    refine ⟨ends, exclusions, _, _, ?_, hread, hreadable, hblocks, fun g hg => (hs.gap hg).2, ?_⟩
    · rw [span, hends, hexclusions]
      rfl
    · exact fun x => hs.holds_iff

/-- Every policy of the pools has one range, which is proper. -/
theorem exists_poolPolicies (guard : Pool → Option Guard) {pools : List Pool}
    (h : ∀ pool ∈ pools, ∀ d ∈ pool.ranges, d.Accepted net) :
    ∃ policies, poolPolicies guard pools = some policies ∧
      ∀ p ∈ policies, ∃ r texts, p.ipRanges = [texts] ∧ parseRange texts = some r ∧ Proper r := by
  have hone : ∀ (g : Guard) (d : Declared) (order : ℕ), d.Accepted net →
      ∃ p, guardPolicy g d order = some p ∧
        ∃ r texts, p.ipRanges = [texts] ∧ parseRange texts = some r ∧ Proper r := by
    intro g d order hd
    obtain ⟨lo, hlo⟩ := Ipv4.exists_toText (Net.bounds_of_holds hd.lo)
    obtain ⟨hi, hhi⟩ := Ipv4.exists_toText (Net.bounds_of_holds hd.hi)
    refine ⟨_, by rw [guardPolicy, hlo, hhi]; rfl, (d.lo, d.hi), (lo, hi), rfl, ?_, hd.proper⟩
    simp [parseRange, Ipv4.parse_toText hlo, Ipv4.parse_toText hhi]
  obtain ⟨policies, hpolicies, -, hall⟩ := Loop.exists_mapM
    (P := fun (_ : (Guard × Declared) × ℕ) (p : Policy) =>
      ∃ r texts, p.ipRanges = [texts] ∧ parseRange texts = some r ∧ Proper r)
    (l := (pools.flatMap fun pool => match guard pool with
      | none => []
      | some g => pool.ranges.map fun d => (g, d)).zipIdx 1)
    (f := fun a => guardPolicy a.1.1 a.1.2 a.2) (fun a ha => by
      obtain ⟨pool, hpool, hgd⟩ := List.mem_flatMap.mp (List.fst_mem_of_mem_zipIdx ha)
      refine hone _ _ _ ?_
      split at hgd
      · cases hgd
      · obtain ⟨d, hd, heq⟩ := List.mem_map.mp hgd
        rw [← heq]
        exact h pool hpool d hd)
  refine ⟨policies, hpolicies, fun p hp => ?_⟩
  obtain ⟨a, -, hap⟩ := hall p hp
  exact hap

end Write

/-! ## The pools of a subnet -/

/-- Where every range that is wanted is proper, the ranges that are taken are. -/
theorem proper_taken {Free : ℤ → ℤ → Prop} {wanted : List (String × List Range)}
    (h : ∀ w ∈ wanted, ∀ r ∈ w.2, Proper r) : ∀ r ∈ taken Free wanted, Proper r := by
  induction wanted generalizing Free with
  | nil => simp [taken]
  | cons w wanted ih =>
    rw [List.forall_mem_cons] at h
    rw [taken]
    split
    · exact ih h.2
    · next r hfind => exact List.forall_mem_cons.mpr ⟨h.1 r (List.mem_of_find?_eq_some hfind), ih h.2⟩

/-- A subnet whose ranges and pools are accepted comes to a scope that can be read, with the merged
ranges as its range without its exclusions. -/
theorem exists_subnetScope {net : Net} (rest : Rest) (guard : Pool → Option Guard) {c : Collected}
    (h : c.Accepted net) :
    ∃ scope, subnetScope net rest guard c = some scope ∧ scope.Valid ∧
      (∀ b ∈ scope.blocks, Proper b) ∧
      (∀ p ∈ scope.policies, ∃ r texts, p.ipRanges = [texts] ∧ parseRange texts = some r ∧
        Proper r) ∧
      ∀ x, (Holds scope.range x x ∧ ∀ b ∈ scope.blocks, ¬ Holds b x x) ↔
        ∃ d ∈ c.ranges, d.lo ≤ x ∧ x ≤ d.hi := by
  obtain ⟨hseparated, hunion⟩ := mergeRanges_spec fun d hd => (h.ranges d hd).proper
  have hwritable : ∀ r ∈ mergeRanges c.ranges, Writable r := by
    intro r hr
    have hproper : r.1 ≤ r.2 := hseparated.proper r hr
    -- both ends are addresses of some declared range
    have hbounds : ∀ x, Holds r x x → 0 ≤ x ∧ x < 2 ^ 32 := by
      intro x hx
      obtain ⟨d, hd, hlo, hhi⟩ := (hunion x).mp ⟨r, hr, hx⟩
      have hdlo := Net.bounds_of_holds (h.ranges d hd).lo
      have hdhi := Net.bounds_of_holds (h.ranges d hd).hi
      omega
    have h₁ := hbounds r.1 ⟨le_rfl, hproper⟩
    have h₂ := hbounds r.2 ⟨hproper, le_rfl⟩
    exact ⟨h₁.1, h₁.2, h₂⟩
  obtain ⟨ends, exclusions, outer, blocks, hspan⟩ :=
    exists_spanned net hseparated hwritable
  obtain ⟨policies, hpolicies, hranges⟩ := exists_poolPolicies guard h.pools
  have haddress : 0 ≤ net.address ∧ net.address < 2 ^ 32 := by
    have hle := net.le
    have hpos : (0 : ℤ) < 2 ^ (32 - net.prefixLen) := by positivity
    exact ⟨net.nonneg, by omega⟩
  obtain ⟨scopeId, hscopeId⟩ := Ipv4.exists_toText haddress
  refine ⟨_, by rw [subnetScope, hspan.span, hpolicies, hscopeId]; rfl, ⟨?_, ?_, ?_⟩, ?_, ?_, ?_⟩
  · show (parseRange (ends.1, ends.2)).isSome
    rw [hspan.namedOuter]
    rfl
  · exact hspan.readable
  · intro p hp r hr
    obtain ⟨range, texts, hone, hread, -⟩ := hranges p hp
    rw [hone, List.mem_singleton] at hr
    rw [hr]
    exact readable_of_parseRange hread
  · intro b hb
    refine hspan.proper b ?_
    rw [← hspan.namedBlocks]
    exact hb
  · exact hranges
  · intro x
    show (Holds ((parseRange (ends.1, ends.2)).getD (0, 0)) x x ∧
      ∀ b ∈ exclusions.filterMap parseRange, ¬ Holds b x x) ↔ _
    rw [hspan.namedOuter, hspan.namedBlocks, Option.getD_some, hspan.union, hunion]

/-- Every subnet block comes to a subnet of Kea whose pools are a partition of the ranges that its
`range` statements and `pool` blocks declare. -/
theorem subnetScope_partition (isIpv6 : String → Bool) (net : Net) (body : List Stmt) (rest : Rest)
    (guard : Pool → Option Guard) (optionsToKea : OptionsToKea) (jenId : ℤ) {c : Collected}
    (h : collect isIpv6 net body = some c) :
    ∃ scope m pools, subnetScope net rest guard c = some scope ∧
      scopeToSubnet optionsToKea scope jenId = some m ∧
      m.subnet.pools.mapM readPool = some pools ∧
      Partition pools fun x => ∃ d ∈ c.ranges, d.lo ≤ x ∧ x ≤ d.hi := by
  obtain ⟨scope, hscope, hvalid, hblocks, hpolicies, hunion⟩ :=
    exists_subnetScope rest guard (collect_accepted h)
  obtain ⟨m, hm, -, hpools, -, -⟩ := scopeToSubnet_eq optionsToKea hvalid jenId
  refine ⟨scope, m, scope.pools optionsToKea, hscope, hm, hpools, ?_⟩
  -- nothing inverted gets in: the gaps and the ranges of the policies are proper
  have hproper : ∀ w ∈ scope.wanted optionsToKea, ∀ r ∈ w.2, Proper r := by
    intro w hw r hr
    obtain ⟨p, hp, hclass⟩ := List.mem_filterMap.mp hw
    obtain ⟨cls, -, rfl⟩ := Option.map_eq_some_iff.mp hclass
    obtain ⟨range, texts, hone, hread, hrange⟩ :=
      hpolicies p ((List.mem_insertionSort _).mp hp)
    rw [hone, List.filterMap_cons_some hread, List.filterMap_nil, List.mem_singleton] at hr
    rw [hr]
    exact hrange
  have hpartition := (partition_pools_iff optionsToKea hvalid).mpr
    ⟨not_doubled hblocks, proper_taken hproper⟩
  simpa only [hunion] using hpartition

/-- The network `10.0.0.0/24`. -/
def officeNet : Net := ⟨167772160, 24, by decide, by decide⟩

/-- A word of a statement. -/
def word (text : String) : Tok := { text := text, line := 1 }

/-- `range 10.0.0.10 10.0.0.20;` and a pool with `range 10.0.0.40 10.0.0.22;`. -/
def officeBody : List Stmt := [
  .mk [word "range", word "10.0.0.10", word "10.0.0.20"] none 1,
  .mk [word "pool"] (some [.mk [word "range", word "10.0.0.40", word "10.0.0.22"] none 3]) 2]

/-- The guard of a pool that is for phones. -/
def phonesGuard : Guard :=
  ⟨"phones", [{ field := "vendor_class", value := "phone" }], .all, false, []⟩

theorem subnetScope_partition_office :
    ∃ scope m pools, subnetScope officeNet ⟨"255.255.255.0", "office", 600, [], [], "", ""⟩
        (fun _ => some phonesGuard) ⟨[⟨167772170, 167772180, 1⟩, ⟨167772182, 167772200, 3⟩],
          [{ ranges := [⟨167772182, 167772200, 3⟩], line := 2 }]⟩ = some scope ∧
      scopeToSubnet noOptions scope 1 = some m ∧
      m.subnet.pools.mapM readPool = some pools ∧
      Partition pools fun x => ∃ d ∈ [(⟨167772170, 167772180, 1⟩ : Declared),
        ⟨167772182, 167772200, 3⟩], d.lo ≤ x ∧ x ≤ d.hi :=
  subnetScope_partition (fun _ => false) officeNet officeBody _ _ noOptions 1
    (by decide +kernel)

end JenKea.Import
