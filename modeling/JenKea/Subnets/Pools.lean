import JenKea.Lib.Ipv4Net
import JenKea.Lib.Merge

/-!
# The pools of a subnet

How `jen/services/pools.py` reads the pools of a subnet and what it counts: the ranges of the pools, sorted and
merged, are separated, and hold the addresses of the readable pools, each once.
-/

namespace JenKea.Subnets

open JenKea.Interval

/-- A pool: its text, or an entry of Kea's list. -/
inductive Pool where
  | text (text : String)
  | entry (pool : Option String)
  deriving DecidableEq, Repr

/-- An address to look for. -/
inductive Address where
  | text (text : String)
  | number (n : ℤ)
  deriving DecidableEq, Repr

/-- `_addr`. -/
def addr (value : String) : Option ℤ := Ipv4.parse (Text.strip value)

/-- The parts of a text before and after its first dash. -/
def splitDash (text : String) : Option (String × String) :=
  match text.toList.dropWhile fun c => c ≠ '-' with
  | [] => none
  | _ :: rest => some (String.ofList (text.toList.takeWhile fun c => c ≠ '-'), String.ofList rest)

/-- `parse_pool`. -/
def parsePool (text : String) (network : Option Ipv4.Network) : Option Range :=
  let text := Text.strip text
  if text = "" then none
  else match splitDash text with
  | some (first, last) => do
    let first ← addr first
    let last ← addr last
    if last < first then none else return (first, last)
  | none => do
    let sub ← Ipv4.parseNetwork text
    if network.any fun net => sub.address < net.address || net.broadcast < sub.broadcast then none
    else return (sub.address, sub.broadcast)

/-- `_pool_text`. -/
def poolText : Pool → String
  | .text text => text
  | .entry pool => pool.getD ""

/-- The range of a pool, where it can be read. -/
def Pool.range (pool : Pool) : Option Range := parsePool (poolText pool) none

/-- The order of pairs. -/
def le (a b : Range) : Bool := a.1 < b.1 ∨ a.1 = b.1 ∧ a.2 ≤ b.2

/-- `pool_ranges`. -/
def poolRanges (pools : List Pool) : List Range :=
  merge ((pools.filterMap Pool.range).insertionSort fun a b => le a b)

/-- `total_pool_size`. -/
def totalPoolSize (pools : List Pool) : ℤ := ((poolRanges pools).map size).sum

/-- The number of an address. -/
def Address.value : Address → Option ℤ
  | .text written => addr written
  | .number n => some n

/-- `address_in_pools`. -/
def addressInPools (address : Address) (pools : List Pool) : Bool :=
  match address.value with
  | none => false
  | some value => (poolRanges pools).any fun r => r.1 ≤ value && value ≤ r.2

/-! ## What is counted -/

/-- The addresses that lie in a readable pool. -/
def pooled (pools : List Pool) : Set ℤ :=
  {x | ∃ pool ∈ pools, ∃ r, pool.range = some r ∧ r.1 ≤ x ∧ x ≤ r.2}

/-- A range that is read is not empty. -/
theorem proper_of_parsePool {text : String} {network : Option Ipv4.Network} {r : Range}
    (h : parsePool text network = some r) : Proper r := by
  unfold parsePool at h
  dsimp only at h
  split_ifs at h with hempty
  split at h
  · simp only [Option.bind_eq_bind, Option.bind_eq_some_iff, Option.pure_def] at h
    obtain ⟨first, -, last, -, h⟩ := h
    split_ifs at h with hlt
    obtain rfl := Option.some.inj h
    show first ≤ last
    omega
  · simp only [Option.bind_eq_bind, Option.bind_eq_some_iff, Option.pure_def] at h
    obtain ⟨sub, -, h⟩ := h
    split_ifs at h with hout
    obtain rfl := Option.some.inj h
    have hhosts : 0 < Ipv4.hosts sub.prefixLength := by
      unfold Ipv4.hosts
      positivity
    show sub.address ≤ sub.broadcast
    unfold Ipv4.Network.broadcast
    omega

section Sorted

variable {ranges : List Range}

theorem pairwise_insertionSort_le (ranges : List Range) :
    (ranges.insertionSort fun a b => le a b).Pairwise fun a b => a.1 ≤ b.1 := by
  have htotal : Std.Total fun a b : Range => le a b = true := ⟨fun a b => by
    simp only [le, decide_eq_true_eq]
    omega⟩
  have htrans : IsTrans Range fun a b => le a b = true := ⟨fun a b c => by
    simp only [le, decide_eq_true_eq]
    omega⟩
  refine (List.pairwise_insertionSort (fun a b : Range => le a b = true) ranges).imp ?_
  intro a b hab
  simp only [le, decide_eq_true_eq] at hab
  omega

end Sorted

variable {pools : List Pool}

/-- The ranges of the pools are separated, and hold the addresses of the pools. -/
theorem poolRanges_spec (pools : List Pool) :
    Separated (poolRanges pools) ∧ ∀ x, (∃ r ∈ poolRanges pools, Holds r x x) ↔ x ∈ pooled pools := by
  have hproper : ∀ r ∈ (pools.filterMap Pool.range).insertionSort fun a b => le a b, Proper r := by
    intro r hr
    obtain ⟨pool, -, hpool⟩ := List.mem_filterMap.mp ((List.mem_insertionSort _).mp hr)
    exact proper_of_parsePool hpool
  obtain ⟨hseparated, hunion⟩ := merge_spec hproper (pairwise_insertionSort_le _)
  refine ⟨hseparated, fun x => (hunion x).trans ?_⟩
  constructor
  · rintro ⟨r, hr, hholds⟩
    obtain ⟨pool, hpool, hread⟩ := List.mem_filterMap.mp ((List.mem_insertionSort _).mp hr)
    exact ⟨pool, hpool, r, hread, hholds⟩
  · rintro ⟨pool, hpool, r, hread, hholds⟩
    exact ⟨r, (List.mem_insertionSort _).mpr (List.mem_filterMap.mpr ⟨pool, hpool, hread⟩), hholds⟩

theorem numbers_poolRanges (pools : List Pool) : numbers (poolRanges pools) = pooled pools :=
  Set.ext (poolRanges_spec pools).2

theorem totalPoolSize_eq (pools : List Pool) : totalPoolSize pools = ((pooled pools).ncard : ℤ) := by
  rw [totalPoolSize, sum_size (poolRanges_spec pools).1, numbers_poolRanges]

theorem addressInPools_iff {address : Address} :
    addressInPools address pools = true ↔ ∃ x ∈ pooled pools, address.value = some x := by
  unfold addressInPools
  cases address.value with
  | none => simp
  | some value =>
    have hmem := (poolRanges_spec pools).2 value
    have hany : ((poolRanges pools).any fun r => r.1 ≤ value && value ≤ r.2) = true ↔
        ∃ r ∈ poolRanges pools, Holds r value value := by
      simp only [List.any_eq_true, Bool.and_eq_true, decide_eq_true_eq]
      rfl
    dsimp only
    rw [hany, hmem]
    constructor
    · exact fun h => ⟨value, h, rfl⟩
    · rintro ⟨x, hx, hvalue⟩
      exact Option.some.inj hvalue ▸ hx

/-- The ranges of the pools are sorted, and neither overlap nor touch; their size is the number of addresses in
the pools; and an address is in the pools where it is one of these. -/
theorem pools_counted (pools : List Pool) :
    (poolRanges pools).Pairwise (fun r r' => r.2 + 1 < r'.1) ∧ (∀ r ∈ poolRanges pools, r.1 ≤ r.2) ∧
      (pooled pools).Finite ∧ totalPoolSize pools = ((pooled pools).ncard : ℤ) ∧
      ∀ address, addressInPools address pools = true ↔ ∃ x ∈ pooled pools, address.value = some x := by
  obtain ⟨hproper, hapart⟩ := (poolRanges_spec pools).1
  have hfinite : (pooled pools).Finite := numbers_poolRanges pools ▸ finite_numbers _
  exact ⟨hapart, hproper, hfinite, totalPoolSize_eq pools, fun _ => addressInPools_iff⟩

example : poolRanges [.text "10.0.0.8/30", .entry (some "10.0.0.2 - 10.0.0.7"), .text "ten", .text "10.0.0.10-10.0.0.20"] =
    [(167772162, 167772180)] := by decide

end JenKea.Subnets
