import JenKea.Edit.Attachment
import JenKea.Lib.JsonPath

/-!
# Containers

The dictionaries of a `Dhcp4` section that a class can be attached to: subnets, pools and shared networks. The
code holds on to them and writes into them in place; here a container is named by its place, and what is written
there is written into the section. A section may be of any shape: what is no dictionary in a list is passed over.
-/

namespace JenKea.Edit

open Json Import

/-! ## Places -/

/-- The place of a container: a shared network, a subnet at the top or in a shared network, or a pool of one. -/
inductive Place where
  | network (n : ℕ)
  | subnet (network : Option ℕ) (i : ℕ)
  | pool (network : Option ℕ) (i k : ℕ)
  deriving DecidableEq

/-- The path of a shared network. -/
def networkPath (n : ℕ) : Path := [.key "shared-networks", .item n]

/-- The path of the list of subnets at the top, or of a shared network. -/
def subnetsPath (network : Option ℕ) : Path := (network.elim [] networkPath) ++ [.key "subnet4"]

/-- The path of the list of pools of a subnet. -/
def poolsPath (network : Option ℕ) (i : ℕ) : Path := subnetsPath network ++ [.item i, .key "pools"]

/-- The path of a place. -/
def Place.path : Place → Path
  | .network n => networkPath n
  | .subnet net i => subnetsPath net ++ [.item i]
  | .pool net i k => poolsPath net i ++ [.item k]

/-- The dictionary at a place. -/
def containerAt (d4 : Fields) (place : Place) : Option Fields :=
  match get place.path (.obj d4) with
  | some (.obj c) => some c
  | _ => none

/-- The length of the list at a path, zero where there is none. -/
def lengthAt (d4 : Fields) (path : Path) : ℕ :=
  match get path (.obj d4) with
  | some (.arr xs) => xs.length
  | _ => 0

/-- The places of the shared networks. -/
def networkPlaces (d4 : Fields) : List Place :=
  (List.range (lengthAt d4 [.key "shared-networks"])).map .network

/-- `iter_subnet4`: the places of the subnets at the top, and then of those of each shared network. -/
def subnetPlaces (d4 : Fields) : List Place :=
  (List.range (lengthAt d4 (subnetsPath none))).map (.subnet none) ++
    (List.range (lengthAt d4 [.key "shared-networks"])).flatMap fun n =>
      (List.range (lengthAt d4 (subnetsPath (some n)))).map (.subnet (some n))

/-- The places of the pools of a subnet. -/
def poolPlaces (d4 : Fields) : Place → List Place
  | .subnet net i => (List.range (lengthAt d4 (poolsPath net i))).map (.pool net i)
  | _ => []

/-- The places of the containers: every subnet, its pools, and every shared network. -/
def places (d4 : Fields) : List Place :=
  ((subnetPlaces d4).flatMap fun s => s :: poolPlaces d4 s) ++ networkPlaces d4

/-- `for x in v or []` raises nothing. -/
def isIterable (v : Json) : Bool :=
  v.falsy || match v with
    | .arr _ | .obj _ | .str _ => true
    | _ => false

/-- The pools of every subnet can be gone through. -/
def poolsIterable (d4 : Fields) : Bool :=
  (subnetPlaces d4).all fun s => (containerAt d4 s).all fun c => isIterable (valueOf "pools" c)

/-- `_scope_containers`, where nothing is raised. -/
def scopeContainers (d4 : Fields) : List Fields := (places d4).filterMap (containerAt d4)

/-- The dictionaries of a list. -/
def dicts (v : Json) : List Fields :=
  match v with
  | .arr xs => xs.filterMap fun
    | .obj c => some c
    | _ => none
  | _ => []

/-- A key of the new spelling is seen. -/
def newSeen (d4 : Fields) : Bool :=
  hasAny (scopeContainers d4) [newGuard, newAdditional] ||
    hasAny (dicts (valueOf "client-classes" d4)) [newOnly]

/-- A key of the old spelling is seen. -/
def oldSeen (d4 : Fields) : Bool :=
  hasAny (scopeContainers d4) [oldGuard, oldAdditional] ||
    hasAny (dicts (valueOf "client-classes" d4)) [oldOnly]

/-- `attachment_keys`: whether the new spelling is written. It raises where something that it goes through is no
list. -/
def usesNew (d4 : Fields) (version : Option (ℕ × ℕ × ℕ)) : Option Bool :=
  if poolsIterable d4 && isIterable (valueOf "client-classes" d4) then
    some (if newSeen d4 && !oldSeen d4 then true
      else if oldSeen d4 && !newSeen d4 then false
      else if oldSeen d4 && newSeen d4 then true
      else
        match version with
        | none => false
        | some (x, y, z) => 2 < x || x == 2 && (7 < y || y == 7 && 4 ≤ z))
  else none

/-! ## Targets -/

/-- What an attachment is made to, as the caller names it. -/
inductive Target where
  | network (name : Json)
  | subnet (id : Json)
  | pool (id pool : Json)

/-- The dictionary at the place has the value. -/
def hasValueAt (d4 : Fields) (key : String) (v : Json) (place : Place) : Bool :=
  (containerAt d4 place).any fun c => (valueOf key c).pyEq v

/-- `_container_for_level4`: the place of the first container that is meant. It raises where something that it
goes through is no list. -/
def findPlace (d4 : Fields) : Target → Option (Option Place)
  | .network name =>
    if isIterable (valueOf "shared-networks" d4) then
      some ((networkPlaces d4).find? (hasValueAt d4 "name" name))
    else none
  | .subnet id => some ((subnetPlaces d4).find? (hasValueAt d4 "id" id))
  | .pool id pool =>
    match (subnetPlaces d4).find? (hasValueAt d4 "id" id) with
    | none => some none
    | some s =>
      if (containerAt d4 s).all fun c => isIterable (valueOf "pools" c) then
        some ((poolPlaces d4 s).find? (hasValueAt d4 "pool" pool))
      else none

/-- A change of the container at a place. -/
def onContainer (g : Fields → Fields) : Json → Json
  | .obj c => .obj (g c)
  | v => v

/-- The section with a container changed. -/
def changeAt (d4 : Fields) (place : Place) (g : Fields → Fields) : Fields :=
  match modify place.path (onContainer g) (.obj d4) with
  | .obj d4' => d4'
  | _ => d4

/-! ## Paths and places -/

/-- The keys on the way to a container. -/
def onWay : List String := ["shared-networks", "subnet4", "pools"]

theorem key_mem_path (place : Place) {k : String} (h : Step.key k ∈ place.path) : k ∈ onWay := by
  cases place with
  | network n =>
    simp [Place.path, networkPath, onWay] at h ⊢
    exact Or.inl h
  | subnet net i =>
    cases net <;> simp [Place.path, subnetsPath, networkPath, onWay] at h ⊢ <;> tauto
  | pool net i j =>
    cases net <;> simp [Place.path, poolsPath, subnetsPath, networkPath, onWay] at h ⊢ <;> tauto

theorem path_injective : Function.Injective Place.path := by
  intro p q h
  cases p with
  | network n =>
    cases q with
    | network m => simpa [Place.path, networkPath] using h
    | subnet net i => cases net <;> simp [Place.path, networkPath, subnetsPath] at h
    | pool net i k => cases net <;> simp [Place.path, networkPath, poolsPath, subnetsPath] at h
  | subnet net i =>
    cases q with
    | network m => cases net <;> simp [Place.path, networkPath, subnetsPath] at h
    | subnet net' i' =>
      cases net <;> cases net' <;> simp [Place.path, networkPath, subnetsPath] at h ⊢ <;> exact h
    | pool net' i' k =>
      cases net <;> cases net' <;>
        simp [Place.path, networkPath, poolsPath, subnetsPath] at h
  | pool net i k =>
    cases q with
    | network m => cases net <;> simp [Place.path, networkPath, poolsPath, subnetsPath] at h
    | subnet net' i' =>
      cases net <;> cases net' <;>
        simp [Place.path, networkPath, poolsPath, subnetsPath] at h
    | pool net' i' k' =>
      cases net <;> cases net' <;>
        simp [Place.path, networkPath, poolsPath, subnetsPath] at h ⊢ <;> exact h

/-- A key off the way, at a container, is not on the way to another one. -/
theorem not_prefix_path {p q : Place} {k : String} (hk : k ∉ onWay) : ¬ q.path ++ [.key k] <+: p.path := by
  intro h
  have hmem : Step.key k ∈ p.path := h.subset (List.mem_append_right _ (List.mem_singleton_self _))
  exact hk (key_mem_path p hmem)

/-- Below a key off the way there is no other key of a container. -/
theorem not_below_path {p q : Place} {k j : String} (hk : k ∉ onWay) (hne : q ≠ p ∨ j ≠ k) :
    ¬ p.path ++ [.key k] <+: q.path ++ [.key j] := by
  intro h
  rcases List.prefix_concat_iff.mp h with heq | hprefix
  · obtain ⟨hpath, hkey⟩ := List.append_inj' heq rfl
    have hkj : k = j := by simpa using hkey
    rcases hne with hne | hne
    · exact hne (path_injective hpath).symm
    · exact hne hkj.symm
  · exact not_prefix_path hk hprefix

/-! ## What a change of a container leaves alone -/

/-- The change of a container is at one of its keys, which is none of those on the way to a container. -/
structure OnlyAt (k : String) (g : Fields → Fields) : Prop where
  offWay : k ∉ onWay
  others : ∀ c j, j ≠ k → lookup j (g c) = lookup j c

section Change

variable {d4 : Fields} {p q : Place} {g : Fields → Fields} {k j : String}

theorem OnlyAt.onContainer (h : OnlyAt k g) : OnlyKey k (onContainer g) := by
  intro v s hs
  cases v with
  | obj c =>
    cases s with
    | key j => exact h.others c j fun hj => hs (by rw [hj])
    | item i => rfl
  | _ => rfl

theorem path_ne_nil (p : Place) : p.path ≠ [] := by
  cases p with
  | network n => exact List.cons_ne_nil _ _
  | subnet net i => exact List.append_ne_nil_of_right_ne_nil _ (List.cons_ne_nil _ _)
  | pool net i k => exact List.append_ne_nil_of_right_ne_nil _ (List.cons_ne_nil _ _)

theorem obj_changeAt (d4 : Fields) (p : Place) (g : Fields → Fields) :
    Json.obj (changeAt d4 p g) = modify p.path (onContainer g) (.obj d4) := by
  obtain ⟨s, path, hpath⟩ := List.exists_cons_of_ne_nil (path_ne_nil p)
  have halike : Alike (.obj d4) (modify (s :: path) (onContainer g) (.obj d4)) := alike_modify _
  unfold changeAt
  rw [hpath]
  cases hmodify : modify (s :: path) (onContainer g) (.obj d4) with
  | obj d4' => rfl
  | _ =>
    rw [hmodify] at halike
    cases halike

theorem containerAt_eq_some {c : Fields} :
    containerAt d4 p = some c ↔ get p.path (.obj d4) = some (.obj c) := by
  unfold containerAt
  constructor
  · intro h
    split at h
    · next c' hc' => rw [hc', Option.some.inj h]
    · cases h
  · intro h
    rw [h]

theorem get_changeAt {path : Path} (hg : OnlyAt k g) (hway : ¬ path <+: p.path)
    (hbelow : ¬ p.path ++ [.key k] <+: path) :
    get path (.obj (changeAt d4 p g)) = get path (.obj d4) := by
  rw [obj_changeAt]
  exact get_modify_frame hg.onContainer hway hbelow

/-- The container itself. -/
theorem containerAt_changeAt_self : containerAt (changeAt d4 p g) p = (containerAt d4 p).map g := by
  have hget : get p.path (.obj (changeAt d4 p g)) = (get p.path (.obj d4)).map (onContainer g) := by
    rw [obj_changeAt]
    have habove : get p.path (modify (p.path ++ []) (onContainer g) (.obj d4)) =
        (get p.path (.obj d4)).map (modify [] (onContainer g)) := get_modify_above
    rw [List.append_nil] at habove
    exact habove
  unfold containerAt
  rw [hget]
  cases get p.path (.obj d4) with
  | none => rfl
  | some v => cases v <;> rfl

/-- A list on the way to containers, or beside it, has the outer shape that it had. -/
theorem alike_changeAt {path : Path} (hg : OnlyAt k g) (hkey : Step.key k ∉ path) (hne : path ≠ p.path) :
    ∀ v, get path (.obj d4) = some v → ∃ v', get path (.obj (changeAt d4 p g)) = some v' ∧ Alike v v' := by
  intro v hv
  by_cases hway : path <+: p.path
  · obtain ⟨rest, hrest⟩ := hway
    have hrestne : rest ≠ [] := by
      rintro rfl
      exact hne (by rw [← hrest, List.append_nil])
    obtain ⟨s, rest, rfl⟩ := List.exists_cons_of_ne_nil hrestne
    refine ⟨modify (s :: rest) (onContainer g) v, ?_, alike_modify v⟩
    rw [obj_changeAt, ← hrest, get_modify_above, hv]
    rfl
  · have hbelow : ¬ p.path ++ [.key k] <+: path := fun h =>
      hkey (h.subset (List.mem_append_right _ (List.mem_singleton_self _)))
    exact ⟨v, (get_changeAt hg hway hbelow).trans hv, Alike.refl v⟩

theorem get_changeAt_none {path : Path} (hg : OnlyAt k g) (hkey : Step.key k ∉ path) :
    get path (.obj d4) = none → get path (.obj (changeAt d4 p g)) = none := by
  intro hnone
  by_cases hway : path <+: p.path
  · obtain ⟨rest, hrest⟩ := hway
    rw [obj_changeAt, ← hrest, get_modify_above, hnone]
    rfl
  · have hbelow : ¬ p.path ++ [.key k] <+: path := fun h =>
      hkey (h.subset (List.mem_append_right _ (List.mem_singleton_self _)))
    exact (get_changeAt hg hway hbelow).trans hnone

theorem lengthAt_changeAt {path : Path} (hg : OnlyAt k g) (hkey : Step.key k ∉ path) (hne : path ≠ p.path) :
    lengthAt (changeAt d4 p g) path = lengthAt d4 path := by
  unfold lengthAt
  cases hget : get path (.obj d4) with
  | none => rw [get_changeAt_none hg hkey hget]
  | some v =>
    obtain ⟨v', hv', halike⟩ := alike_changeAt hg hkey hne v hget
    rw [hv']
    cases v <;> cases v' <;> first | rfl | exact halike.symm | cases halike

/-- Whether something can be gone through shows in its outer shape. -/
theorem isIterable_of_alike {v v' : Json} (h : Alike v v') : isIterable v' = isIterable v := by
  cases v <;> cases v' <;> first | rfl | cases h <;> rfl | (simp [isIterable, falsy])

theorem key_not_mem_path (hk : k ∉ onWay) : Step.key k ∉ q.path := fun h => hk (key_mem_path q h)

/-- A container is not a list on the way to one. -/
theorem path_concat_ne {path : Path} : path ++ [.key j] ≠ p.path := by
  intro h
  have hlast := congrArg List.getLast? h
  rw [List.getLast?_append, List.getLast?_singleton, Option.some_or] at hlast
  cases p with
  | network n => cases hlast
  | subnet net i =>
    rw [Place.path, List.getLast?_append, List.getLast?_singleton] at hlast
    cases hlast
  | pool net i n =>
    rw [Place.path, List.getLast?_append, List.getLast?_singleton] at hlast
    cases hlast

/-- A container stays one. -/
theorem isSome_containerAt_changeAt (hg : OnlyAt k g) :
    (containerAt (changeAt d4 p g) q).isSome = (containerAt d4 q).isSome := by
  by_cases hqp : q = p
  · subst hqp
    rw [containerAt_changeAt_self, Option.isSome_map]
  · have hkey : Step.key k ∉ q.path := key_not_mem_path hg.offWay
    have hne : q.path ≠ p.path := fun h => hqp (path_injective h)
    unfold containerAt
    cases hget : get q.path (.obj d4) with
    | none => rw [get_changeAt_none hg hkey hget]
    | some v =>
      obtain ⟨v', hv', halike⟩ := alike_changeAt hg hkey hne v hget
      rw [hv']
      cases v <;> cases v' <;> first | rfl | cases halike

theorem get_concat (j : String) {path : Path} {c : Fields} (h : get path (.obj d4) = some (.obj c)) :
    get (path ++ [.key j]) (.obj d4) = lookup j c := by
  rw [get_append, h]
  show (lookup j c).bind (get []) = lookup j c
  cases lookup j c <;> rfl

theorem get_key (j : String) (d : Fields) : get [.key j] (.obj d) = lookup j d := by
  show (lookup j d).bind (get []) = lookup j d
  cases lookup j d <;> rfl

/-- A key off the way, of any container but the changed one, and of the changed one but the changed key. -/
theorem lookup_changeAt (hg : OnlyAt k g) (hj : j ∉ onWay) (hne : q ≠ p ∨ j ≠ k) :
    (containerAt (changeAt d4 p g) q).map (lookup j) = (containerAt d4 q).map (lookup j) := by
  have hget : get (q.path ++ [.key j]) (.obj (changeAt d4 p g)) = get (q.path ++ [.key j]) (.obj d4) :=
    get_changeAt hg (not_prefix_path hj) (not_below_path hg.offWay hne)
  have hsome : (containerAt (changeAt d4 p g) q).isSome = (containerAt d4 q).isSome :=
    isSome_containerAt_changeAt hg
  cases hc : containerAt d4 q with
  | none =>
    have hnone : containerAt (changeAt d4 p g) q = none := by
      rw [hc] at hsome
      exact Option.isSome_eq_false_iff.mp hsome |> Option.isNone_iff_eq_none.mp
    rw [hnone]
  | some c =>
    cases hc' : containerAt (changeAt d4 p g) q with
    | none =>
      rw [hc, hc'] at hsome
      cases hsome
    | some c' =>
      rw [get_concat j (containerAt_eq_some.mp hc), get_concat j (containerAt_eq_some.mp hc')] at hget
      show some (lookup j c') = some (lookup j c)
      rw [hget]

theorem valueOf_changeAt (hg : OnlyAt k g) (hj : j ∉ onWay) (hne : q ≠ p ∨ j ≠ k) :
    (containerAt (changeAt d4 p g) q).map (valueOf j) = (containerAt d4 q).map (valueOf j) := by
  have hsame : (containerAt (changeAt d4 p g) q).map (lookup j) = (containerAt d4 q).map (lookup j) :=
    lookup_changeAt hg hj hne
  have hlookup := congrArg (Option.map fun v : Option Json => v.getD .null) hsame
  rw [Option.map_map, Option.map_map] at hlookup
  exact hlookup

/-! ### The search for a container -/

/-- The section's own keys off the way. -/
theorem valueOf_changeAt_section (hg : OnlyAt k g) (hj : j ∉ onWay) :
    valueOf j (changeAt d4 p g) = valueOf j d4 := by
  have hway : ¬ [Step.key j] <+: p.path := fun h =>
    hj (key_mem_path p (h.subset (List.mem_singleton_self _)))
  have hbelow : ¬ p.path ++ [.key k] <+: [Step.key j] := by
    intro h
    have hlength := h.length_le
    rw [List.length_append, List.length_singleton, List.length_singleton] at hlength
    exact path_ne_nil p (List.length_eq_zero_iff.mp (by omega))
  have hget : get [.key j] (.obj (changeAt d4 p g)) = get [.key j] (.obj d4) := get_changeAt hg hway hbelow
  have hlookup : ∀ d : Fields, get [.key j] (.obj d) = lookup j d := get_key j
  rw [hlookup, hlookup] at hget
  unfold valueOf
  rw [hget]

theorem isIterable_changeAt (hg : OnlyAt k g) (hk : k ≠ j) :
    (containerAt (changeAt d4 p g) q).all (fun c => isIterable (valueOf j c)) =
      (containerAt d4 q).all fun c => isIterable (valueOf j c) := by
  have hsome : (containerAt (changeAt d4 p g) q).isSome = (containerAt d4 q).isSome :=
    isSome_containerAt_changeAt hg
  have hkey : Step.key k ∉ q.path ++ [.key j] := by
    rw [List.mem_append, List.mem_singleton, not_or]
    exact ⟨key_not_mem_path hg.offWay, fun h => hk (by simpa using h)⟩
  cases hc : containerAt d4 q with
  | none =>
    rw [hc] at hsome
    rw [Option.isNone_iff_eq_none.mp (Option.isSome_eq_false_iff.mp hsome)]
  | some c =>
    cases hc' : containerAt (changeAt d4 p g) q with
    | none =>
      rw [hc, hc'] at hsome
      cases hsome
    | some c' =>
      have hget := get_concat j (containerAt_eq_some.mp hc)
      have hget' := get_concat j (containerAt_eq_some.mp hc')
      show isIterable (valueOf j c') = isIterable (valueOf j c)
      unfold valueOf
      rw [← hget, ← hget']
      cases hlist : get (q.path ++ [.key j]) (.obj d4) with
      | none => rw [get_changeAt_none hg hkey hlist]
      | some v =>
        obtain ⟨v', hv', halike⟩ := alike_changeAt hg hkey path_concat_ne v hlist
        rw [hv']
        exact isIterable_of_alike halike

theorem hasValueAt_changeAt {v : Json} (hg : OnlyAt k g) (hj : j ∉ onWay) (hne : j ≠ k) :
    hasValueAt (changeAt d4 p g) j v q = hasValueAt d4 j v q := by
  have hsame : (containerAt (changeAt d4 p g) q).map (valueOf j) = (containerAt d4 q).map (valueOf j) :=
    valueOf_changeAt hg hj (Or.inr hne)
  have hvalue := congrArg (Option.any fun w : Json => w.pyEq v) hsame
  rw [Option.any_map, Option.any_map] at hvalue
  exact hvalue

theorem key_not_mem_subnetsPath {net : Option ℕ} (hk : k ∉ onWay) : Step.key k ∉ subnetsPath net := by
  intro h
  refine hk (key_mem_path (.subnet net 0) ?_)
  exact List.mem_append_left _ h

theorem key_ne_networks (hk : k ∉ onWay) : Step.key k ∉ [Step.key "shared-networks"] := by
  intro h
  refine hk ?_
  rw [Step.key.inj (List.mem_singleton.mp h)]
  decide

theorem networkPlaces_changeAt (hg : OnlyAt k g) : networkPlaces (changeAt d4 p g) = networkPlaces d4 := by
  unfold networkPlaces
  have hkey : Step.key k ∉ [Step.key "shared-networks"] := key_ne_networks hg.offWay
  have hne : [] ++ [Step.key "shared-networks"] ≠ p.path := path_concat_ne
  rw [lengthAt_changeAt hg hkey hne]

theorem subnetPlaces_changeAt (hg : OnlyAt k g) : subnetPlaces (changeAt d4 p g) = subnetPlaces d4 := by
  unfold subnetPlaces
  have hkey : Step.key k ∉ [Step.key "shared-networks"] := key_ne_networks hg.offWay
  have hne : [] ++ [Step.key "shared-networks"] ≠ p.path := path_concat_ne
  have hsubnets : ∀ net, lengthAt (changeAt d4 p g) (subnetsPath net) = lengthAt d4 (subnetsPath net) :=
    fun net => lengthAt_changeAt hg (key_not_mem_subnetsPath hg.offWay) path_concat_ne
  simp only [lengthAt_changeAt hg hkey hne, hsubnets]

theorem poolPlaces_changeAt (hg : OnlyAt k g) : poolPlaces (changeAt d4 p g) q = poolPlaces d4 q := by
  cases q with
  | subnet net i =>
    have hkey : Step.key k ∉ poolsPath net i := by
      intro h
      refine hg.offWay (key_mem_path (.pool net i 0) ?_)
      exact List.mem_append_left _ h
    have hne : poolsPath net i ≠ p.path := by
      have hconcat : poolsPath net i = (subnetsPath net ++ [.item i]) ++ [.key "pools"] := by
        unfold poolsPath
        rw [List.append_assoc]
        rfl
      rw [hconcat]
      exact path_concat_ne
    show (List.range (lengthAt (changeAt d4 p g) (poolsPath net i))).map _ = _
    rw [lengthAt_changeAt hg hkey hne]
    rfl
  | _ => rfl

/-- A change of a key that the search does not look at leads the search to the same place. -/
theorem findPlace_changeAt (hg : OnlyAt k g) (hk : k ∉ ["name", "id", "pool"]) (target : Target) :
    findPlace (changeAt d4 p g) target = findPlace d4 target := by
  have hvalue : ∀ j ∈ ["name", "id", "pool"], ∀ v q, hasValueAt (changeAt d4 p g) j v q = hasValueAt d4 j v q := by
    intro j hj v q
    have hoff : j ∉ onWay := by
      revert j
      decide
    exact hasValueAt_changeAt hg hoff fun h => hk (h ▸ hj)
  have hpools : ∀ q, (containerAt (changeAt d4 p g) q).all (fun c => isIterable (valueOf "pools" c)) =
      (containerAt d4 q).all fun c => isIterable (valueOf "pools" c) :=
    fun q => isIterable_changeAt hg fun h => hg.offWay (h ▸ by decide)
  have hnetworks : isIterable (valueOf "shared-networks" (changeAt d4 p g)) =
      isIterable (valueOf "shared-networks" d4) := by
    have hkey : Step.key k ∉ [Step.key "shared-networks"] := key_ne_networks hg.offWay
    have hne : [] ++ [Step.key "shared-networks"] ≠ p.path := path_concat_ne
    unfold valueOf
    rw [← get_key, ← get_key]
    cases hlist : get [.key "shared-networks"] (.obj d4) with
    | none => rw [get_changeAt_none hg hkey hlist]
    | some v =>
      obtain ⟨v', hv', halike⟩ := alike_changeAt hg hkey hne v hlist
      rw [hv']
      exact isIterable_of_alike halike
  cases target with
  | network name =>
    simp only [findPlace, hnetworks, networkPlaces_changeAt hg, funext (hvalue "name" (by decide) name)]
  | subnet id =>
    simp only [findPlace, subnetPlaces_changeAt hg, funext (hvalue "id" (by decide) id)]
  | pool id pool =>
    simp only [findPlace, subnetPlaces_changeAt hg, poolPlaces_changeAt hg, hpools,
      funext (hvalue "id" (by decide) id), funext (hvalue "pool" (by decide) pool)]

end Change

end JenKea.Edit
