import JenKea.Explain.Client
import JenKea.Import.ToKea
import JenKea.Lib.Kleene

/-!
# Guards in an explanation

The guard classes of a subnet, a shared network and a pool in `jen/services/dhcp_explain.py`, and which of
them a client is eligible for. The editor attaches a guard as one of the classes that a client must match,
and an explanation asks for all of them: the two agree just where every guard of a list is in one state.
-/

namespace JenKea.Explain

open Json Import

/-! ## The states of guards -/

/-- `_guard_state`, without the guards that it returns too. -/
def guardState (members : Members) (container : Fields) : Option Bool :=
  let guards := guardClasses container
  if guards = [] then some true
  else
    let states := guards.map members.state
    if some false ∈ states then some false
    else if none ∈ states then none
    else some true

/-- A candidate subnet, and whether its guards let the client in. -/
structure SubnetState where
  id : Option Json
  subnet : Option Json
  eligible : Option Bool
  guards : List String

/-- The candidate subnets, under the guards of their shared network. -/
def subnetStates (members : Members) (sn : Option Fields) (candidates : List SubnetEntry) :
    List SubnetState :=
  let snState := sn.elim (some true) (guardState members)
  candidates.map fun s =>
    { id := lookup "id" s.fields, subnet := lookup "subnet" s.fields,
      eligible := Kleene.and snState (guardState members s.fields), guards := guardClasses s.fields }

/-- The first subnet that the client is eligible for. -/
def selected (states : List SubnetState) : Option SubnetState :=
  states.find? fun s => s.eligible = some true

/-- A pool of the chosen subnet. -/
structure PoolRow where
  pool : Option Json
  eligible : Option Bool
  guards : List String

/-- The pools of the chosen subnet. -/
def poolRows (members : Members) (chosen : SubnetEntry) : List PoolRow :=
  chosen.pools.map fun p =>
    { pool := lookup "pool" p, eligible := guardState members p, guards := guardClasses p }

/-! ## The editor's reading -/

/-- A client must match one of the guards: the state says so, says that it matches none, or leaves it
open. -/
structure MatchesOne (members : Members) (guards : List String) (state : Option Bool) : Prop where
  eligible : state = some true ↔ guards = [] ∨ ∃ g ∈ guards, members.state g = some true
  blocked : state = some false ↔ guards ≠ [] ∧ ∀ g ∈ guards, members.state g = some false
  undecided : state = none ↔ ¬ (guards = [] ∨ ∃ g ∈ guards, members.state g = some true) ∧
    ¬ (guards ≠ [] ∧ ∀ g ∈ guards, members.state g = some false)

/-- The guards are all matched, all not matched, or all undecided. -/
def Alike (members : Members) (guards : List String) : Prop :=
  ∀ g ∈ guards, ∀ g' ∈ guards, members.state g = members.state g'

section Guards

variable {members : Members} {container : Fields}

/-- An explanation asks for every guard. -/
theorem guardState_eq_all :
    guardState members container = Kleene.all ((guardClasses container).map members.state) := by
  set states := (guardClasses container).map members.state with hstates
  have hcode : guardState members container = if guardClasses container = [] then some true
      else if some false ∈ states then some false else if none ∈ states then none else some true := rfl
  rw [hcode]
  split_ifs with hempty hfalse hnone
  · rw [hstates, hempty]
    rfl
  · exact (Kleene.all_eq_false.mpr hfalse).symm
  · rcases hall : Kleene.all states with _ | _ | _
    · rfl
    · exact absurd (Kleene.all_eq_false.mp hall) hfalse
    · exact absurd (Kleene.all_eq_true.mp hall _ hnone) nofun
  · refine (Kleene.all_eq_true.mpr fun a ha => ?_).symm
    rcases a with _ | _ | _
    · exact absurd ha hnone
    · exact absurd ha hfalse
    · rfl

/-- The order of the guards does not count, nor how often one stands there. -/
theorem guardState_congr {container' : Fields}
    (h : ∀ g, g ∈ guardClasses container' ↔ g ∈ guardClasses container) :
    guardState members container' = guardState members container := by
  rw [guardState_eq_all, guardState_eq_all]
  exact Kleene.all_congr fun a => by simp only [List.mem_map, h]

theorem guardState_eq_true :
    guardState members container = some true ↔
      ∀ g ∈ guardClasses container, members.state g = some true := by
  rw [guardState_eq_all, Kleene.all_eq_true, List.forall_mem_map]

theorem guardState_eq_false :
    guardState members container = some false ↔
      ∃ g ∈ guardClasses container, members.state g = some false := by
  rw [guardState_eq_all, Kleene.all_eq_false, List.mem_map]

/-- Guards in one state are read alike, whether one of them is asked for or all. -/
theorem matchesOne_of_alike (h : Alike members (guardClasses container)) :
    MatchesOne members (guardClasses container) (guardState members container) := by
  have htrue : guardState members container = some true ↔
      guardClasses container = [] ∨ ∃ g ∈ guardClasses container, members.state g = some true := by
    rw [guardState_eq_true]
    constructor
    · intro hall
      cases hguards : guardClasses container with
      | nil => exact .inl rfl
      | cons g gs =>
        rw [hguards] at hall
        exact .inr ⟨g, List.mem_cons_self, hall g List.mem_cons_self⟩
    · rintro (hempty | ⟨g, hg, hmatched⟩) g' hg'
      · rw [hempty] at hg'
        cases hg'
      · exact (h g' hg' g hg).trans hmatched
  have hfalse : guardState members container = some false ↔
      guardClasses container ≠ [] ∧ ∀ g ∈ guardClasses container, members.state g = some false := by
    rw [guardState_eq_false]
    constructor
    · rintro ⟨g, hg, hblocked⟩
      exact ⟨List.ne_nil_of_mem hg, fun g' hg' => (h g' hg' g hg).trans hblocked⟩
    · rintro ⟨hne, hall⟩
      obtain ⟨g, hg⟩ := List.exists_mem_of_ne_nil _ hne
      exact ⟨g, hg, hall g hg⟩
  refine ⟨htrue, hfalse, ?_⟩
  rw [← htrue, ← hfalse]
  rcases guardState members container with _ | _ | _ <;> simp

/-- An explanation reads a guard list as the editor writes it just where its guards are all in one state;
on every list, the order of the guards does not count, nor how often one stands there. -/
theorem matchesOne_iff (members : Members) (container : Fields) :
    (∀ container', (∀ g, g ∈ guardClasses container' ↔ g ∈ guardClasses container) →
        guardState members container' = guardState members container) ∧
      (MatchesOne members (guardClasses container) (guardState members container) ↔
        Alike members (guardClasses container)) := by
  refine ⟨fun container' h => guardState_congr h, fun h g hg g' hg' => ?_, matchesOne_of_alike⟩
  have hne : guardClasses container ≠ [] := List.ne_nil_of_mem hg
  -- the list is read both ways: as all of its guards, and as one of them
  rcases hstate : guardState members container with _ | _ | _
  · have hnotTrue := (h.undecided.mp hstate).1
    have hnotFalse : ∀ g ∈ guardClasses container, members.state g ≠ some false := fun g hg hblocked =>
      absurd ((guardState_eq_false.mpr ⟨g, hg, hblocked⟩).symm.trans hstate) nofun
    have hnone : ∀ g ∈ guardClasses container, members.state g = none := by
      intro g hg
      rcases hg' : members.state g with _ | _ | _
      · rfl
      · exact absurd hg' (hnotFalse g hg)
      · exact absurd (.inr ⟨g, hg, hg'⟩) hnotTrue
    rw [hnone g hg, hnone g' hg']
  · have hall := (h.blocked.mp hstate).2
    rw [hall g hg, hall g' hg']
  · have hall := guardState_eq_true.mp hstate
    rw [hall g hg, hall g' hg']

/-- A pool that two classes are attached to. -/
def twiceGuarded : Fields :=
  attachGuard true "phones" (attachGuard true "printers" [("pool", .str "10.0.5.10 - 10.0.5.20")])

/-- A printer that is no phone is let in by one of the two guards, and an explanation says that it is
not. -/
theorem not_matchesOne_twiceGuarded :
    ¬ MatchesOne (.ofList [("printers", some true), ("phones", some false)]) (guardClasses twiceGuarded)
      (guardState (.ofList [("printers", some true), ("phones", some false)]) twiceGuarded) :=
  fun h => absurd (h.eligible.mpr (.inr ⟨"printers", by decide, by decide⟩)) (by decide)

/-- The rows of the pools carry the states of their guards. -/
theorem eligible_poolRows {chosen : SubnetEntry} {row : PoolRow} (h : row ∈ poolRows members chosen) :
    ∃ p ∈ chosen.pools, row.guards = guardClasses p ∧ row.eligible = guardState members p := by
  obtain ⟨p, hp, rfl⟩ := List.mem_map.mp h
  exact ⟨p, hp, rfl, rfl⟩

end Guards

end JenKea.Explain
