import JenKea.Explain.Classes

/-!
# What can never be

Two findings of `jen/services/config_doctor.py` that say never: a class whose test no client can meet, and a pool
whose guard contradicts that of its subnet. The first is right. The second looks at one guard of each: a list of
guards asks for one of its classes only, so that another pair of guards may let a client in.
-/

namespace JenKea.Doctor

open Json Import Explain

/-! ## Classes that nothing meets -/

/-- The clauses of a test that only `and` joins, as the stack gives them. -/
def clauses : Node → Option (List (Operand × Bytes))
  | .and left right => do
    let later ← clauses right
    let earlier ← clauses left
    return later ++ earlier
  | .eq left literal => some [(left, literal)]
  | _ => none

/-- The loop over the clauses: a field that is to equal a second value. -/
def contradicts (seen : Map Operand Bytes) : List (Operand × Bytes) → Bool
  | [] => false
  | (operand, literal) :: rest =>
    if (seen.get operand).any fun v => v ≠ literal then true
    else contradicts (seen.put operand literal) rest

/-- The test of a class is found to be never met. -/
def isUnreachable (node : Node) : Bool :=
  match clauses node with
  | some leaves => 2 ≤ leaves.length && contradicts .empty leaves
  | none => false

/-- `parse_expression` of a test, where an error of its own is passed over. -/
def readTest (test : Json) : Except Raised (Option Node) :=
  if test.falsy then .ok none
  else
    match test with
    | .str text =>
      match parseExpression text with
      | .ok node => .ok (some node)
      | .error (.expr _) => .ok none
      | .error .value => .error .value
    | _ => .error .shape

/-- `_check_class_unreachable`: the classes that are reported. -/
def checkClassUnreachable (cfg : Config) : Except Raised (List Fields) := do
  let found ← (cfg.dhcp4.classes.filter fun c => !(valueOf "name" c).falsy).mapM fun c => do
    let node ← readTest (valueOf "test" c)
    return if node.any isUnreachable then [c] else []
  return found.flatten

/-! ## Guards that contradict each other -/

/-- `class_tests`: the test of the last class of a name. -/
def classTest (cfg : Config) (name : String) : Json :=
  ((cfg.dhcp4.classes.reverse.find? fun c => !(valueOf "name" c).falsy && (valueOf "name" c).pyEq (.str name)).map
    (valueOf "test")).getD .null

/-- `_ast`. -/
def ast (cfg : Config) (name : String) : Except Raised (Option Node) := readTest (classTest cfg name)

/-- One test is the negation of the other. -/
def negates (poolAst subnetAst : Option Node) : Bool :=
  match poolAst, subnetAst with
  | some pool, some subnet => pool = .not subnet || subnet = .not pool
  | _, _ => false

/-- A finding, by the subnet, the pool, and the guard of each. -/
structure GuardFinding where
  subnet : SubnetEntry
  pool : Fields
  poolGuard : String
  subnetGuard : String
  deriving DecidableEq

/-- The findings for a guard of a pool. -/
def guardFindings (cfg : Config) (s : SubnetEntry) (p : Fields) (poolGuard : String) :
    Except Raised (List GuardFinding) := do
  let poolAst ← ast cfg poolGuard
  let found ← (guardClasses s.fields).mapM fun subnetGuard => do
    let subnetAst ← ast cfg subnetGuard
    return if negates poolAst subnetAst then [⟨s, p, poolGuard, subnetGuard⟩] else []
  return found.flatten

/-- `_check_contradictory_pool_guards`. It raises where the name of a class cannot be a key. -/
def checkContradictoryPoolGuards (cfg : Config) : Except Raised (List GuardFinding) :=
  if cfg.dhcp4.classes.any fun c => isUnhashable (valueOf "name" c) && !(valueOf "name" c).falsy then .error .shape
  else do
    let found ← ((cfg.iterSubnet4.flatMap fun x => x.1.pools.flatMap fun p =>
      (guardClasses p).map fun poolGuard => (x.1, p, poolGuard))).mapM fun (s, p, poolGuard) =>
        guardFindings cfg s p poolGuard
    return found.flatten

/-! ## What the findings say -/

/-- A client matches a class: as its test says, where the test can be read, and else as the memberships say. -/
def matched (cfg : Config) (client : Client) (members : Members) (name : String) : Option Bool :=
  match ast cfg name with
  | .ok (some node) => evaluate client members node
  | _ => members.state name

/-- A client is eligible where no class is asked for, or one of those that are is matched. -/
def Eligible (cfg : Config) (client : Client) (members : Members) (guards : List String) : Prop :=
  guards = [] ∨ ∃ g ∈ guards, matched cfg client members g = some true

/-- No client matches the two classes. -/
def Exclude (cfg : Config) (g g' : String) : Prop :=
  ∀ client members, ¬ (matched cfg client members g = some true ∧ matched cfg client members g' = some true)

/-- No client meets the test of a class that is reported, and none is eligible for a pool that is reported and for
its subnet. -/
structure Sound (cfg : Config) (classes : List Fields) (pools : List GuardFinding) : Prop where
  unreachable : ∀ c ∈ classes, ∃ node, readTest (valueOf "test" c) = .ok (some node) ∧
    ∀ client members, evaluate client members node ≠ some true
  contradictory : ∀ f ∈ pools, ∀ client members,
    ¬ (Eligible cfg client members (guardClasses f.subnet.fields) ∧ Eligible cfg client members (guardClasses f.pool))

/-- The tests of two classes are read, and one is the negation of the other. -/
def Negates (cfg : Config) (g g' : String) : Prop :=
  ∃ a b, ast cfg g = .ok a ∧ ast cfg g' = .ok b ∧ negates a b = true

/-- Where a guard of a pool negates one of its subnet, all other pairs of their guards exclude each other too. -/
def OtherwiseApart (cfg : Config) : Prop :=
  ∀ x ∈ cfg.iterSubnet4, ∀ p ∈ x.1.pools,
    (∃ g ∈ guardClasses p, ∃ g' ∈ guardClasses x.1.fields, Negates cfg g g') →
      ∀ g ∈ guardClasses p, ∀ g' ∈ guardClasses x.1.fields, ¬ Negates cfg g g' → Exclude cfg g g'

section Tests

variable {cfg : Config} {client : Client} {members : Members} {node : Node}

/-- A field that equals a literal equals no other one. -/
theorem eq_of_compare {operand : Operand} {a b : Bytes} (ha : (compare client operand a).1 = some true)
    (hb : (compare client operand b).1 = some true) : a = b := by
  obtain ⟨options, hoptions, hne, halla⟩ := compare_eq_some.mp ha
  obtain ⟨options', hoptions', -, hallb⟩ := compare_eq_some.mp hb
  obtain rfl : options = options' := Option.some.inj (hoptions.symm.trans hoptions')
  obtain ⟨bytes, hbytes⟩ := List.exists_mem_of_ne_nil _ hne
  have hslice : operand.slice bytes = a := of_decide_eq_true (halla bytes hbytes)
  have hslice' : operand.slice bytes = b := of_decide_eq_true (hallb bytes hbytes)
  exact hslice.symm.trans hslice'

/-- A test that is met has all its clauses met. -/
theorem compare_of_evaluate {leaves : List (Operand × Bytes)} (hleaves : clauses node = some leaves)
    (h : evaluate client members node = some true) :
    ∀ leaf ∈ leaves, (compare client leaf.1 leaf.2).1 = some true := by
  induction node generalizing leaves with
  | and left right ihl ihr =>
    obtain ⟨later, hlater, hleaves⟩ := Option.bind_eq_some_iff.mp hleaves
    obtain ⟨earlier, hearlier, hleaves⟩ := Option.bind_eq_some_iff.mp hleaves
    obtain rfl := Option.some.inj hleaves
    obtain ⟨hleft, hright⟩ := Kleene.and_eq_true.mp h
    rw [List.forall_mem_append]
    exact ⟨ihr hlater hright, ihl hearlier hleft⟩
  | eq left literal =>
    obtain rfl := Option.some.inj hleaves
    rw [List.forall_mem_singleton]
    exact h
  | or _ _ | not _ | member _ => cases hleaves

/-- A contradiction is one of two clauses on one field with two values. -/
theorem exists_of_contradicts {seen : Map Operand Bytes} {rest : List (Operand × Bytes)} (h : contradicts seen rest = true) :
    ∃ operand a b, a ≠ b ∧ (operand, b) ∈ rest ∧ (seen.get operand = some a ∨ (operand, a) ∈ rest) := by
  induction rest generalizing seen with
  | nil => cases h
  | cons leaf rest ih =>
    obtain ⟨operand, literal⟩ := leaf
    unfold contradicts at h
    split_ifs at h with hseen
    · cases hget : seen.get operand with
      | none =>
        rw [hget] at hseen
        cases hseen
      | some v =>
        rw [hget] at hseen
        exact ⟨operand, v, literal, of_decide_eq_true hseen, List.mem_cons_self, .inl hget⟩
    · obtain ⟨operand', a, b, hne, hb, ha⟩ := ih h
      refine ⟨operand', a, b, hne, List.mem_cons_of_mem _ hb, ?_⟩
      rcases ha with ha | ha
      · rw [Map.get_put] at ha
        split_ifs at ha with hoperand
        · rw [hoperand, ← Option.some.inj ha]
          exact .inr List.mem_cons_self
        · exact .inl ha
      · exact .inr (List.mem_cons_of_mem _ ha)

/-- The test of a class that is reported is never met. -/
theorem evaluate_ne_true (h : isUnreachable node = true) : evaluate client members node ≠ some true := by
  intro htrue
  unfold isUnreachable at h
  split at h
  · next leaves hleaves =>
    obtain ⟨operand, a, b, hne, hb, ha⟩ := exists_of_contradicts (Bool.and_eq_true_iff.mp h).2
    have hcompare := compare_of_evaluate hleaves htrue
    rcases ha with ha | ha
    · cases ha
    · exact hne (eq_of_compare (hcompare _ ha) (hcompare _ hb))
  · cases h

/-- The classes that are reported are those whose tests are found to be never met. -/
theorem readTest_of_reported {found : List Fields} (h : checkClassUnreachable cfg = .ok found) {c : Fields} (hc : c ∈ found) :
    ∃ node, readTest (valueOf "test" c) = .ok (some node) ∧ isUnreachable node = true := by
  obtain ⟨lists, hlists, h⟩ := Except.bind_eq_ok.mp h
  obtain rfl := Except.ok.inj h
  obtain ⟨c', -, one, hone, hmem⟩ := (Except.mem_flatten_of_mapM hlists).mp hc
  obtain ⟨node, hnode, hone⟩ := Except.bind_eq_ok.mp hone
  obtain rfl := Except.ok.inj hone
  split_ifs at hmem with hunreachable
  · rw [List.mem_singleton.mp hmem]
    cases node with
    | none => cases hunreachable
    | some node => exact ⟨node, hnode, hunreachable⟩
  · cases hmem

end Tests

section Guards

variable {cfg : Config} {client : Client} {members : Members} {g g' : String}

theorem matched_of_ast {node : Node} (h : ast cfg g = .ok (some node)) :
    matched cfg client members g = evaluate client members node := by
  unfold matched
  rw [h]

/-- Nothing meets a test and its negation. -/
theorem exclude_of_negates (h : Negates cfg g g') : Exclude cfg g g' := by
  obtain ⟨a, b, ha, hb, hnegates⟩ := h
  rintro client members ⟨hg, hg'⟩
  cases a with
  | none => cases hnegates
  | some pool =>
    cases b with
    | none => cases hnegates
    | some subnet =>
      rw [matched_of_ast ha] at hg
      rw [matched_of_ast hb] at hg'
      rcases Bool.or_eq_true_iff.mp hnegates with hnot | hnot
      · rw [of_decide_eq_true hnot, evaluate, hg'] at hg
        cases hg
      · rw [of_decide_eq_true hnot, evaluate, hg] at hg'
        cases hg'

theorem mem_guardFindings {s : SubnetEntry} {p : Fields} {poolGuard : String} {found : List GuardFinding}
    (h : guardFindings cfg s p poolGuard = .ok found) {f : GuardFinding} :
    f ∈ found ↔ f.subnet = s ∧ f.pool = p ∧ f.poolGuard = poolGuard ∧ f.subnetGuard ∈ guardClasses s.fields ∧
      Negates cfg f.poolGuard f.subnetGuard := by
  obtain ⟨poolAst, hpool, h⟩ := Except.bind_eq_ok.mp h
  obtain ⟨lists, hlists, h⟩ := Except.bind_eq_ok.mp h
  obtain rfl := Except.ok.inj h
  rw [Except.mem_flatten_of_mapM hlists]
  constructor
  · rintro ⟨subnetGuard, hguard, one, hone, hf⟩
    obtain ⟨subnetAst, hsubnet, hone⟩ := Except.bind_eq_ok.mp hone
    obtain rfl := Except.ok.inj hone
    split_ifs at hf with hnegates
    · rw [List.mem_singleton.mp hf]
      exact ⟨rfl, rfl, rfl, hguard, poolAst, subnetAst, hpool, hsubnet, hnegates⟩
    · cases hf
  · rintro ⟨rfl, rfl, rfl, hguard, a, b, ha, hb, hnegates⟩
    obtain rfl := Except.ok.inj (hpool.symm.trans ha)
    refine ⟨f.subnetGuard, hguard, [f], ?_, List.mem_singleton_self f⟩
    rw [hb]
    show (Except.ok (if negates poolAst b then _ else _) : Except Raised (List GuardFinding)) = _
    rw [if_pos hnegates]

/-- What is reported: a pool of a subnet, and a guard of each that negates the other. -/
theorem mem_checkContradictoryPoolGuards {found : List GuardFinding} (h : checkContradictoryPoolGuards cfg = .ok found)
    {f : GuardFinding} :
    f ∈ found ↔ (∃ x ∈ cfg.iterSubnet4, x.1 = f.subnet) ∧ f.pool ∈ f.subnet.pools ∧ f.poolGuard ∈ guardClasses f.pool ∧
      f.subnetGuard ∈ guardClasses f.subnet.fields ∧ Negates cfg f.poolGuard f.subnetGuard := by
  unfold checkContradictoryPoolGuards at h
  split_ifs at h with hunhashable
  obtain ⟨lists, hlists, h⟩ := Except.bind_eq_ok.mp h
  obtain rfl := Except.ok.inj h
  rw [Except.mem_flatten_of_mapM hlists]
  constructor
  · rintro ⟨⟨s, p, poolGuard⟩, hplace, one, hone, hf⟩
    obtain ⟨x, hx, hplace⟩ := List.mem_flatMap.mp hplace
    obtain ⟨p', hp', hplace⟩ := List.mem_flatMap.mp hplace
    obtain ⟨guard, hguard, heq⟩ := List.mem_map.mp hplace
    obtain ⟨rfl, hrest⟩ := Prod.mk.inj heq
    obtain ⟨rfl, rfl⟩ := Prod.mk.inj hrest
    obtain ⟨hsubnet, hpool, hguard', hrest⟩ := (mem_guardFindings hone).mp hf
    rw [hsubnet, hpool, hguard']
    rw [hguard'] at hrest
    exact ⟨⟨x, hx, rfl⟩, hp', hguard, hrest⟩
  · rintro ⟨⟨x, hx, hsubnet⟩, hpool, hguard, hrest⟩
    have hplace : (f.subnet, f.pool, f.poolGuard) ∈ cfg.iterSubnet4.flatMap fun x => x.1.pools.flatMap fun p =>
        (guardClasses p).map fun poolGuard => (x.1, p, poolGuard) := by
      refine List.mem_flatMap.mpr ⟨x, hx, List.mem_flatMap.mpr ⟨f.pool, hsubnet ▸ hpool, ?_⟩⟩
      rw [hsubnet]
      exact List.mem_map.mpr ⟨f.poolGuard, hguard, rfl⟩
    obtain ⟨one, hone⟩ := Except.exists_of_mapM hlists hplace
    exact ⟨_, hplace, one, hone, (mem_guardFindings hone).mpr ⟨rfl, rfl, rfl, hrest⟩⟩

end Guards

/-- The findings say what is so just where a pool that is reported has no other pair of guards that a client can
match. -/
theorem sound_iff {cfg : Config} {classes : List Fields} {pools : List GuardFinding}
    (hclasses : checkClassUnreachable cfg = .ok classes) (hpools : checkContradictoryPoolGuards cfg = .ok pools) :
    Sound cfg classes pools ↔ OtherwiseApart cfg := by
  constructor
  · intro hsound x hx p hp hnegated g hg g' hg' _ client members hmatched
    obtain ⟨h, hh, h', hh', hnegates⟩ := hnegated
    have hf : (⟨x.1, p, h, h'⟩ : GuardFinding) ∈ pools :=
      (mem_checkContradictoryPoolGuards hpools).mpr ⟨⟨x, hx, rfl⟩, hp, hh, hh', hnegates⟩
    exact hsound.contradictory _ hf client members ⟨.inr ⟨g', hg', hmatched.2⟩, .inr ⟨g, hg, hmatched.1⟩⟩
  · intro hapart
    refine ⟨fun c hc => ?_, fun f hf client members => ?_⟩
    · obtain ⟨node, hnode, hunreachable⟩ := readTest_of_reported hclasses hc
      exact ⟨node, hnode, fun client members => evaluate_ne_true hunreachable⟩
    · obtain ⟨⟨x, hx, hsubnet⟩, hpool, hguard, hguard', hnegates⟩ := (mem_checkContradictoryPoolGuards hpools).mp hf
      rintro ⟨hsubnetEligible, hpoolEligible⟩
      rcases hsubnetEligible with hnil | ⟨g', hg', hmatched'⟩
      · rw [hnil] at hguard'
        cases hguard'
      rcases hpoolEligible with hnil | ⟨g, hg, hmatched⟩
      · rw [hnil] at hguard
        cases hguard
      have hexclude : Exclude cfg g g' := by
        by_cases hpair : Negates cfg g g'
        · exact exclude_of_negates hpair
        · rw [← hsubnet] at hpool hguard' hg'
          exact hapart x hx f.pool hpool ⟨f.poolGuard, hguard, f.subnetGuard, hguard', hnegates⟩ g hg g' hg' hpair
      exact hexclude client members ⟨hmatched, hmatched'⟩

/-- A class. -/
def classOf (name test : String) : Fields := [("name", .str name), ("test", .str test)]

/-- A subnet for one class, with a pool for the given ones. -/
def guardedConfig (poolGuards : List String) : Config :=
  { fields := [], dhcp4 :=
      { classes := [classOf "red" "option[60].hex == 'red'", classOf "not_red" "not option[60].hex == 'red'",
          classOf "blue" "option[12].text == 'blue'"],
        subnets := [{
          fields := [("id", .int 6), ("client-classes", .arr [.str "red"])],
          pools := [[("pool", .str "10.0.6.10 - 10.0.6.50"), ("client-classes", .arr (poolGuards.map .str))]] }] } }

/-- The finding for the pool. -/
def guardedFinding (poolGuards : List String) : GuardFinding :=
  { subnet :=
      { fields := [("id", .int 6), ("client-classes", .arr [.str "red"])],
        pools := [[("pool", .str "10.0.6.10 - 10.0.6.50"), ("client-classes", .arr (poolGuards.map .str))]] },
    pool := [("pool", .str "10.0.6.10 - 10.0.6.50"), ("client-classes", .arr (poolGuards.map .str))],
    poolGuard := "not_red", subnetGuard := "red" }

/-- A pool for one class alone, that of its subnet negated, lets no client in. -/
theorem sound_notRed : Sound (guardedConfig ["not_red"]) [] [guardedFinding ["not_red"]] := by
  refine (sound_iff (by decide +kernel) (by decide +kernel)).mpr ?_
  intro x hx p hp _ g hg g' hg' hpair
  have hplaces : (guardedConfig ["not_red"]).iterSubnet4 = [((guardedFinding ["not_red"]).subnet, .null)] := rfl
  rw [hplaces, List.mem_singleton] at hx
  rw [hx] at hp hg'
  rw [List.mem_singleton.mp hp] at hg
  obtain rfl : g = "not_red" := List.mem_singleton.mp hg
  obtain rfl : g' = "red" := List.mem_singleton.mp hg'
  refine absurd ?_ hpair
  exact ⟨some (.not (.eq (.acc .vendorClass) (encode "red"))), some (.eq (.acc .vendorClass) (encode "red")),
    by decide +kernel, by decide +kernel, by decide +kernel⟩

/-- A client of a red vendor class, with the name blue, is eligible for the pool and for the subnet: the pool asks
for one of its two classes. -/
theorem blue_eligible :
    ¬ ∀ (cfg : Config) (classes : List Fields) (pools : List GuardFinding), checkClassUnreachable cfg = .ok classes →
      checkContradictoryPoolGuards cfg = .ok pools → Sound cfg classes pools := by
  intro h
  have hclasses : checkClassUnreachable (guardedConfig ["not_red", "blue"]) = .ok [] := by decide +kernel
  have hpools : checkContradictoryPoolGuards (guardedConfig ["not_red", "blue"]) =
      .ok [guardedFinding ["not_red", "blue"]] := by decide +kernel
  let client : Client := { vendorClass := "red", hostname := "blue" }
  have hred : matched (guardedConfig ["not_red", "blue"]) client .empty "red" = some true := by decide +kernel
  have hblue : matched (guardedConfig ["not_red", "blue"]) client .empty "blue" = some true := by decide +kernel
  refine (h _ _ _ hclasses hpools).contradictory _ (List.mem_singleton_self _) client .empty ⟨?_, ?_⟩
  · exact .inr ⟨"red", List.mem_cons_self, hred⟩
  · exact .inr ⟨"blue", List.mem_cons_of_mem _ List.mem_cons_self, hblue⟩

end JenKea.Doctor
