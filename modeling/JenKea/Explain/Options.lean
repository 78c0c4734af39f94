import JenKea.Edit.OptionEditor
import JenKea.Explain.Classes
import JenKea.Explain.Guards
import JenKea.Lib.Overwritten

/-!
# The options of a subnet, and those of an explanation

The options that a client gets are worked out twice: `effective_options` of `jen/services/dhcp_options.py` walks the
levels of a subnet for the option page, and the last step of `explain` in `jen/services/dhcp_explain.py` those of
the subnet and the pool that it answers with. Both let a later level win. A subnet outside every shared network has
`None` for the network's name, and the explanation goes on to look for a network without a name.
-/

namespace JenKea.Explain

open Json Import Edit Subnets

/-! ## Entries -/

/-- What a dictionary of Python finds a value under: numbers that are equal are one key. -/
inductive Key where
  | none
  | number (q : ℚ)
  | text (s : String)
  deriving DecidableEq

/-- The key that a value is. A list or dictionary cannot be one. -/
def keyOf : Json → Except Raised Key
  | .null => .ok .none
  | .bool b => .ok (.number (if b then 1 else 0))
  | .int n => .ok (.number n)
  | .float q => .ok (.number q)
  | .str s => .ok (.text s)
  | .arr _ | .obj _ => .error .shape

/-- The code of an entry, that of its name where it has none. -/
def codeOf (o : Fields) : Except Raised Json := (entryCode o).elim (.error .shape) .ok

/-- `entry_key`, of a dictionary -/
def entryKey (o : Fields) : Except Raised (Json × Json) := do
  let code ← codeOf o
  pure (if (valueOf "space" o).falsy then .str "dhcp4" else valueOf "space" o,
    if code ≠ .null then code else valueOf "name" o)

/-- Where the entry stands in a dictionary by such keys. -/
def placeOf (o : Fields) : Except Raised (Key × Key) := do
  let (space, key) ← entryKey o
  pure (← keyOf space, ← keyOf key)

/-- `V4_OPTIONS[code]["name"]`, or `None` -/
def catalogName (code : Json) : Except Raised Json := do
  match ← keyOf code with
  | .number q => pure ((V4_OPTIONS.find? fun entry => (entry.1 : ℚ) = q).elim .null fun entry => .str entry.2.1)
  | _ => pure .null

/-- A row of options. -/
structure OptionRow where
  code : Json
  name : Json
  data : Json
  source : String
  overridden : List String

/-- An entry as the loop reads it: its place among the winners, its key, and its row, which overrides nothing yet. -/
structure Item where
  place : Key × Key
  key : Json
  row : OptionRow

section Merge

variable (repr : Json → String)

/-- `_display` -/
def display (o : Fields) : Except Raised (Json × Json) := do
  let code ← codeOf o
  let name ← if valueOf "name" o = .null then catalogName code else pure (valueOf "name" o)
  pure (code, if name.falsy then .str (if code ≠ .null then "code " ++ pyStr repr code else "?") else name)

/-- An entry of the options of a level. -/
def readEntry (entry : String × Fields) : Except Raised Item := do
  let (source, o) := entry
  let (_, key) ← entryKey o
  let (code, name) ← display repr o
  let place ← placeOf o
  pure { place, key, row := { code, name, data := (lookup "data" o).getD (.str ""), source, overridden := [] } }

/-- `winners[k] = row`: the key that came first stays in the dictionary. -/
def putItem (winners : Map (Key × Key) (Json × OptionRow)) (item : Item) : Map (Key × Key) (Json × OptionRow) :=
  let prev := winners.get item.place
  winners.put item.place (prev.elim item.key Prod.fst,
    { item.row with overridden := prev.elim [] fun p => p.2.overridden ++ [p.2.source] })

/-- `_sort`: numbers before texts. -/
def sortsBefore (a b : Json) : Bool :=
  let number : Json → Option ℤ
    | .bool b => some (if b then 1 else 0)
    | .int n => some n
    | _ => none
  match number a, number b with
  | some m, some n => m ≤ n
  | some _, none => true
  | none, some _ => false
  | none, none => keyLe (pyStr repr a).toList (pyStr repr b).toList

/-- The entries of some levels, each with its source. -/
def entriesOf (levels : List (String × List Fields)) : List (String × Fields) :=
  levels.flatMap fun level => level.2.map fun o => (level.1, o)

/-- `_merge_options`, and the loop of `effective_options` -/
def mergeOptions (levels : List (String × List Fields)) : Except Raised (List OptionRow) := do
  let items ← (entriesOf levels).mapM (readEntry repr)
  let winners := items.foldl putItem .empty
  pure ((winners.entries.map Prod.snd).insertionSort (fun a b => sortsBefore repr a.1 b.1) |>.map Prod.snd)

/-! ## The levels of a subnet -/

/-- `_opts` -/
def optionsOf (container : Fields) : List Fields := dicts (valueOf "option-data" container)

/-- The first shared network of the name. -/
def Config.network (cfg : Config) (name : Json) : Option NetworkEntry :=
  cfg.dhcp4.networks.find? fun n => (NetworkEntry.name n).pyEq name

/-- The options of the first pool with the text. -/
def poolOptions (subnet : SubnetEntry) (text : Json) : List Fields :=
  ((subnet.pools.find? fun p => (valueOf "pool" p).pyEq text).map optionsOf).getD []

def networkSource (name : Json) : String := "shared-network:" ++ pyStr repr name

/-- `_levels_for` -/
def levelsFor (cfg : Config) (subnetId : ℤ) (pool : Json) : List (String × List Fields) :=
  match cfg.subnet4ById subnetId with
  | none => []
  | some ((subnet, snName), _) =>
    ("global", cfg.dhcp4.optionData) ::
      ((if snName ≠ .null then
          [(networkSource repr snName, ((cfg.network snName).map fun n => optionsOf n.fields).getD [])] else []) ++
        ("subnet", optionsOf subnet.fields) ::
          if pool ≠ .null then [("pool", poolOptions subnet pool)] else [])

/-- `effective_options` -/
def effectiveOptions (cfg : Config) (subnetId : ℤ) (pool : Json) : Except Raised (List OptionRow) :=
  mergeOptions repr (levelsFor repr cfg subnetId pool)

/-! ## The explanation -/

/-- The text of a pool. -/
def PoolRow.text (p : PoolRow) : Json := p.pool.getD .null

/-- What an explanation comes to, as far as its options go. -/
structure Answer where
  /-- The name of the shared network, `None` for a subnet outside all. -/
  snName : Json
  matchedNames : List String
  chosen : SubnetEntry
  optionPool : Option PoolRow
  /-- The options of the reservation. -/
  reserved : List Json
  options : List OptionRow

/-- The levels of the last step of `explain`. -/
def explainLevels (cfg : Config) (snName : Json) (sn : Option NetworkEntry) (matched : List Fields)
    (chosen : SubnetEntry) (optionPool : Option PoolRow) (reserved : List Json) : List (String × List Fields) :=
  ("global", cfg.dhcp4.optionData) ::
    (matched.map (fun c => ("class:" ++ pyStr repr (valueOf "name" c), optionsOf c)) ++
      (sn.toList.map fun n => (networkSource repr snName, optionsOf n.fields)) ++
        ("subnet", optionsOf chosen.fields) ::
          ((optionPool.toList.map fun p => ("pool", poolOptions chosen p.text)) ++
            if reserved ≠ [] then [("reservation", dicts (.arr reserved))] else []))

/-- `explain`, as far as its options go, where `free` is how many addresses of a pool are free. It answers with
nothing for a subnet that is not there. -/
def explain (cfg : Config) (free : Json → Option ℕ) (client : Client) (subnetId : ℤ) (reservations : List Reservation)
    (assigned : Option Assigned) : Except Raised (Option Answer) :=
  match cfg.subnet4ById subnetId with
  | none => .ok none
  | some found => do
    let ((subnet, snName), _) := found
    let sn := (cfg.network snName).filter fun n => n.fields ≠ [] ∨ n.subnets.length ≠ 0
    let res := (explainReservation cfg client found reservations).res.map Prod.fst
    let ctx ← context subnet (sn.map NetworkEntry.fields) res assigned
    let classRows ← classRows ctx client ctx.members (cfg.dhcp4.classes.map .obj)
    let members := ctx.members.putAll (classRows.map fun r => (r.name, r.matched))
    let matchedNames := (classRows.filter fun r => r.matched = some true).map ClassRow.name
    let candidates := cfg.candidates found
    let chosen := match selected (subnetStates members (sn.map NetworkEntry.fields) candidates) with
      | some s => (candidates.find? fun c => (valueOf "id" c.fields).pyEq (s.id.getD .null)).getD subnet
      | none => subnet
    let eligiblePools := (poolRows members chosen).filter fun p => p.eligible = some true
    let firstPool := eligiblePools.find? fun p => (free p.text).all fun n => 0 < n
    let optionPool := firstPool.or eligiblePools.head?
    let matched := cfg.dhcp4.classes.filter fun c => matchedNames.any fun name => (valueOf "name" c).pyEq (.str name)
    let reserved := res.elim [] Reservation.options
    let options ← mergeOptions repr (explainLevels repr cfg snName sn matched chosen optionPool reserved)
    pure (some { snName, matchedNames, chosen, optionPool, reserved, options })

end Merge

/-! ## What a merge reports -/

/-- What is compared of a row: its code, its data, and the level it comes from. -/
def OptionRow.facts (r : OptionRow) : Json × Json × String := (r.code, r.data, r.source)

/-- The entry as a write to a dictionary of such facts. -/
def Item.entry (item : Item) : (Key × Key) × (Json × Json × String) := (item.place, item.row.facts)

/-- What some entries come to: for each place, the facts of the last entry. -/
def Reports (items : List Item) (x : Json × Json × String) : Prop :=
  ∃ place, (Map.ofList (items.map Item.entry)).get place = some x

/-- Two lists of rows have the same codes, with the same data, from the same levels. -/
def SameOptions (rows rows' : List OptionRow) : Prop :=
  ∀ x, x ∈ rows.map OptionRow.facts ↔ x ∈ rows'.map OptionRow.facts

section Reports

variable {repr : Json → String} {levels : List (String × List Fields)} {items items' later : List Item}
  {rows : List OptionRow} {x : Json × Json × String} {place : Key × Key}

/-- The winners are the last entries of their places, whatever these override. -/
theorem get_foldl_putItem {winners : Map (Key × Key) (Json × OptionRow)}
    {m : Map (Key × Key) (Json × Json × String)}
    (h : ∀ place, (winners.get place).map (fun w => w.2.facts) = m.get place) :
    ((items.foldl putItem winners).get place).map (fun w => w.2.facts) =
      (m.putAll (items.map Item.entry)).get place := by
  induction items generalizing winners m with
  | nil => exact h place
  | cons item items ih =>
    rw [List.foldl_cons, List.map_cons, Map.putAll_cons]
    refine ih fun place => ?_
    unfold putItem
    rw [Map.get_put, Map.get_put]
    by_cases hplace : place = item.place
    · rw [if_pos hplace]
      exact (if_pos hplace).symm
    · rw [if_neg hplace, h]
      exact (if_neg hplace).symm

/-- What `mergeOptions` reports of the entries that it reads. -/
theorem mem_mergeOptions (hitems : (entriesOf levels).mapM (readEntry repr) = .ok items)
    (hrows : mergeOptions repr levels = .ok rows) : x ∈ rows.map OptionRow.facts ↔ Reports items x := by
  unfold mergeOptions at hrows
  rw [hitems] at hrows
  obtain rfl := Except.ok.inj hrows
  have hget := fun place => @get_foldl_putItem items place .empty .empty fun _ => rfl
  constructor
  · intro hx
    obtain ⟨row, hrow, rfl⟩ := List.mem_map.mp hx
    obtain ⟨w, hw, rfl⟩ := List.mem_map.mp hrow
    rw [List.mem_insertionSort] at hw
    obtain ⟨⟨place, w⟩, hentry, rfl⟩ := List.mem_map.mp hw
    refine ⟨place, ?_⟩
    show (Map.putAll .empty (items.map Item.entry)).get place = _
    rw [← hget, Map.mem_entries.mp hentry]
    rfl
  · rintro ⟨place, hplace⟩
    have hfound := (hget place).trans hplace
    obtain ⟨w, hw, rfl⟩ := Option.map_eq_some_iff.mp hfound
    refine List.mem_map_of_mem (List.mem_map_of_mem ?_)
    rw [List.mem_insertionSort]
    exact List.mem_map.mpr ⟨(place, w), Map.mem_entries.mpr hw, rfl⟩

theorem Reports.mem (h : Reports items x) : ∃ item ∈ items, item.row.facts = x := by
  obtain ⟨place, h⟩ := h
  obtain ⟨item, hitem, heq⟩ := List.mem_map.mp (Overwritten.mem_of_get_ofList h)
  exact ⟨item, hitem, congrArg Prod.snd heq⟩

/-- A place is taken where an entry has it. -/
theorem isSome_get_entry :
    ((Map.ofList (items.map Item.entry)).get place).isSome ↔ ∃ item ∈ items, item.place = place := by
  rw [Overwritten.isSome_get_ofList, List.any_map, List.any_eq_true]
  exact exists_congr fun item => and_congr_right fun _ => decide_eq_true_iff

/-- Entries of a source that no others have, before later ones: they are reported of as without them just where
the later ones take each of their places. -/
theorem reports_middle_iff {before : List Item} {source : String} (hsource : ∀ item ∈ items, item.row.source = source)
    (hothers : ∀ item ∈ before ++ later, item.row.source ≠ source) :
    (∀ x, Reports (before ++ later) x ↔ Reports (before ++ items ++ later) x) ↔
      ∀ item ∈ items, ∃ item' ∈ later, item'.place = item.place := by
  have hget : ∀ place, (Map.ofList ((before ++ items ++ later).map Item.entry)).get place =
      ((Map.ofList (later.map Item.entry)).get place).or
        (((Map.ofList (items.map Item.entry)).get place).or ((Map.ofList (before.map Item.entry)).get place)) := by
    intro place
    rw [List.map_append, List.map_append, Overwritten.get_ofList_append, Overwritten.get_ofList_append]
  have hget' : ∀ place, (Map.ofList ((before ++ later).map Item.entry)).get place =
      ((Map.ofList (later.map Item.entry)).get place).or ((Map.ofList (before.map Item.entry)).get place) := by
    intro place
    rw [List.map_append, Overwritten.get_ofList_append]
  constructor
  · intro h item hitem
    by_contra hnot
    have hlater : (Map.ofList (later.map Item.entry)).get item.place = none := by
      rw [← Option.not_isSome_iff_eq_none, isSome_get_entry]
      exact hnot
    -- the last of the entries with this place wins, and its source is nowhere else
    obtain ⟨y, hy⟩ := Option.isSome_iff_exists.mp (isSome_get_entry.mpr ⟨item, hitem, rfl⟩)
    have hreport : Reports (before ++ items ++ later) y := by
      refine ⟨item.place, ?_⟩
      rw [hget, hlater, hy]
      rfl
    obtain ⟨item₁, hitem₁, hfacts₁⟩ := Reports.mem ⟨_, hy⟩
    obtain ⟨item₂, hitem₂, hfacts₂⟩ := ((h y).mpr hreport).mem
    have hsame : item₂.row.source = item₁.row.source := by
      have hfacts := hfacts₂.trans hfacts₁.symm
      exact congrArg (fun x => x.2.2) hfacts
    exact hothers item₂ hitem₂ (hsame.trans (hsource item₁ hitem₁))
  · intro h x
    have hplaces : ∀ place, (Map.ofList ((before ++ later).map Item.entry)).get place =
        (Map.ofList ((before ++ items ++ later).map Item.entry)).get place := by
      intro place
      rw [hget, hget']
      cases hlater : (Map.ofList (later.map Item.entry)).get place with
      | some y => rfl
      | none =>
        have hitems : (Map.ofList (items.map Item.entry)).get place = none := by
          rw [← Option.not_isSome_iff_eq_none, isSome_get_entry]
          rintro ⟨item, hitem, rfl⟩
          have htaken := isSome_get_entry.mpr (h item hitem)
          rw [hlater] at htaken
          cases htaken
        rw [hitems]
        rfl
    exact exists_congr fun place => by rw [hplaces]

end Reports

/-! ## Where the two agree -/

/-- The text of the pool that the explanation answers from. -/
def Answer.poolText (e : Answer) : Json := e.optionPool.elim .null PoolRow.text

/-- The options that outrank those of a shared network: of the subnet, and of the pool. -/
def Answer.later (e : Answer) : List Fields :=
  optionsOf e.chosen.fields ++ e.optionPool.elim [] fun p => poolOptions e.chosen p.text

/-- The options of the subnet and of its pool are those of the explanation. -/
def Agrees (repr : Json → String) (cfg : Config) (subnetId : ℤ) (e : Answer) : Prop :=
  ∃ rows, effectiveOptions repr cfg subnetId e.poolText = .ok rows ∧ SameOptions rows e.options

/-- No option comes from something without a name. -/
structure NamedSources (cfg : Config) (e : Answer) : Prop where
  /-- The subnet is in a network with a name, or the subnet and the pool give each option of the first network that
  has none. -/
  network : e.snName = .null → ∀ n, cfg.network .null = some n → ∀ o ∈ optionsOf n.fields,
    ∃ o' ∈ e.later, placeOf o' = placeOf o
  /-- The pool has a text, or the first one without a text has no options. -/
  pool : ∀ p ∈ e.optionPool, p.text = .null → poolOptions e.chosen .null = []

section Agree

variable {repr : Json → String} {cfg : Config} {source : String} {os : List Fields} {items : List Item}

/-- The options of a level, with its source. -/
def tagged (source : String) (os : List Fields) : List (String × Fields) := os.map fun o => (source, o)

theorem readEntry_spec {o : Fields} {item : Item} (h : readEntry repr (source, o) = .ok item) :
    placeOf o = .ok item.place ∧ item.row.source = source := by
  unfold readEntry at h
  obtain ⟨⟨_, key⟩, _, h⟩ := Except.bind_eq_ok.mp h
  obtain ⟨⟨code, name⟩, _, h⟩ := Except.bind_eq_ok.mp h
  obtain ⟨place, hplace, h⟩ := Except.bind_eq_ok.mp h
  obtain rfl := Except.ok.inj h
  exact ⟨hplace, rfl⟩

theorem source_of_mem {entries : List (String × Fields)} {item : Item}
    (h : entries.mapM (readEntry repr) = .ok items) (hitem : item ∈ items) :
    ∃ entry ∈ entries, item.row.source = entry.1 := by
  obtain ⟨⟨source, o⟩, hentry, hread⟩ := (Except.mem_of_mapM h).mp hitem
  exact ⟨_, hentry, (readEntry_spec hread).2⟩

theorem source_of_tagged {entry : String × Fields} (h : entry ∈ tagged source os) : entry.1 = source := by
  obtain ⟨o, _, rfl⟩ := List.mem_map.mp h
  rfl

/-- The places of the entries are those of the options. -/
theorem exists_place_iff {entries : List (String × Fields)} (h : entries.mapM (readEntry repr) = .ok items)
    {place : Key × Key} :
    (∃ item ∈ items, item.place = place) ↔ ∃ entry ∈ entries, placeOf entry.2 = .ok place := by
  constructor
  · rintro ⟨item, hitem, rfl⟩
    obtain ⟨entry, hentry, hread⟩ := (Except.mem_of_mapM h).mp hitem
    exact ⟨entry, hentry, (readEntry_spec hread).1⟩
  · rintro ⟨entry, hentry, hplace⟩
    obtain ⟨item, hread⟩ := Except.exists_of_mapM h hentry
    have hsame := (readEntry_spec hread).1.symm.trans hplace
    exact ⟨item, (Except.mem_of_mapM h).mpr ⟨entry, hentry, hread⟩, Except.ok.inj hsame⟩

theorem mapM_append_ok {entries entries' : List (String × Fields)}
    (h : (entries ++ entries').mapM (readEntry repr) = .ok items) :
    ∃ a b, entries.mapM (readEntry repr) = .ok a ∧ entries'.mapM (readEntry repr) = .ok b ∧ items = a ++ b := by
  rw [List.mapM_append] at h
  obtain ⟨a, ha, h⟩ := Except.bind_eq_ok.mp h
  obtain ⟨b, hb, h⟩ := Except.bind_eq_ok.mp h
  exact ⟨a, b, ha, hb, (Except.ok.inj h).symm⟩

theorem mapM_append_of_ok {entries entries' : List (String × Fields)} {items' : List Item}
    (h : entries.mapM (readEntry repr) = .ok items) (h' : entries'.mapM (readEntry repr) = .ok items') :
    (entries ++ entries').mapM (readEntry repr) = .ok (items ++ items') := by
  rw [List.mapM_append, h, h']
  rfl

theorem mergeOptions_congr {levels levels' : List (String × List Fields)} (h : entriesOf levels = entriesOf levels') :
    mergeOptions repr levels = mergeOptions repr levels' := by
  unfold mergeOptions
  rw [h]

theorem exists_mergeOptions {levels : List (String × List Fields)}
    (h : (entriesOf levels).mapM (readEntry repr) = .ok items) : ∃ rows, mergeOptions repr levels = .ok rows := by
  unfold mergeOptions
  rw [h]
  exact ⟨_, rfl⟩

theorem exists_items {levels : List (String × List Fields)} {rows : List OptionRow}
    (h : mergeOptions repr levels = .ok rows) : ∃ items, (entriesOf levels).mapM (readEntry repr) = .ok items := by
  obtain ⟨items, hitems, _⟩ := Except.bind_eq_ok.mp h
  exact ⟨items, hitems⟩

/-! ### Levels -/

theorem optionsOf_nil : optionsOf [] = [] := rfl

/-- The options of the network that the explanation takes, with their source. -/
def networkEntries (repr : Json → String) (cfg : Config) (snName : Json) : List (String × Fields) :=
  (cfg.network snName).elim [] fun n => tagged (networkSource repr snName) (optionsOf n.fields)

/-- The options of a pool with its source. -/
def poolEntries (chosen : SubnetEntry) (optionPool : Option PoolRow) : List (String × Fields) :=
  optionPool.elim [] fun p => tagged "pool" (poolOptions chosen p.text)

theorem entriesOf_explainLevels (snName : Json) (chosen : SubnetEntry) (optionPool : Option PoolRow) :
    entriesOf (explainLevels repr cfg snName
        ((cfg.network snName).filter fun n => n.fields ≠ [] ∨ n.subnets.length ≠ 0) [] chosen optionPool []) =
      tagged "global" cfg.dhcp4.optionData ++ networkEntries repr cfg snName ++
        (tagged "subnet" (optionsOf chosen.fields) ++ poolEntries chosen optionPool) := by
  have hnetwork : entriesOf (((cfg.network snName).filter fun n => n.fields ≠ [] ∨ n.subnets.length ≠ 0).toList.map
      fun n => (networkSource repr snName, optionsOf n.fields)) = networkEntries repr cfg snName := by
    unfold networkEntries entriesOf tagged
    cases cfg.network snName with
    | none => rfl
    | some n =>
      by_cases hfields : n.fields = []
      · -- a dictionary without entries has no options, whether or not it counts as a network
        rw [Option.elim_some, hfields, optionsOf_nil]
        rw [Option.filter_some]
        split_ifs
        · simp [hfields, optionsOf_nil]
        · rfl
      · rw [Option.filter_some, if_pos (decide_eq_true (.inl hfields))]
        simp
  have hpool : entriesOf (optionPool.toList.map fun p => ("pool", poolOptions chosen p.text)) =
      poolEntries chosen optionPool := by
    unfold poolEntries entriesOf tagged
    cases optionPool with
    | none => rfl
    | some p => simp
  rw [← hnetwork, ← hpool]
  unfold entriesOf explainLevels tagged
  simp

theorem entriesOf_levelsFor {subnetId : ℤ} {subnet : SubnetEntry} {snName : Json} {i : ℕ}
    (h : cfg.subnet4ById subnetId = some ((subnet, snName), i)) (optionPool : Option PoolRow) :
    entriesOf (levelsFor repr cfg subnetId (optionPool.elim .null PoolRow.text)) =
      tagged "global" cfg.dhcp4.optionData ++ (if snName = .null then [] else networkEntries repr cfg snName) ++
        (tagged "subnet" (optionsOf subnet.fields) ++
          if optionPool.elim .null PoolRow.text = .null then [] else poolEntries subnet optionPool) := by
  have hnetwork : entriesOf (if snName ≠ .null then
      [(networkSource repr snName, ((cfg.network snName).map fun n => optionsOf n.fields).getD [])] else []) =
      if snName = .null then [] else networkEntries repr cfg snName := by
    unfold networkEntries entriesOf tagged
    by_cases hname : snName = .null
    · simp [hname]
    · cases cfg.network snName with
      | none => simp [hname]
      | some n => simp [hname]
  have hpool : entriesOf (if optionPool.elim .null PoolRow.text ≠ .null then
      [("pool", poolOptions subnet (optionPool.elim .null PoolRow.text))] else []) =
      if optionPool.elim .null PoolRow.text = .null then [] else poolEntries subnet optionPool := by
    unfold poolEntries entriesOf tagged
    cases optionPool with
    | none => simp
    | some p => by_cases htext : p.text = .null <;> simp [htext]
  rw [← hnetwork, ← hpool]
  unfold levelsFor
  rw [h]
  unfold entriesOf tagged
  simp

/-- What the explanation of a client that matches no class, and has no options reserved, reports. -/
theorem explain_spec {free : Json → Option ℕ} {client : Client} {subnetId : ℤ} {reservations : List Reservation}
    {assigned : Option Assigned} {e : Answer}
    (h : explain repr cfg free client subnetId reservations assigned = .ok (some e)) (hclass : e.matchedNames = [])
    (hreserved : e.reserved = []) :
    mergeOptions repr (explainLevels repr cfg e.snName
      ((cfg.network e.snName).filter fun n => n.fields ≠ [] ∨ n.subnets.length ≠ 0) [] e.chosen e.optionPool []) =
        .ok e.options := by
  unfold explain at h
  cases hfound : cfg.subnet4ById subnetId with
  | none =>
    rw [hfound] at h
    cases h
  | some found =>
    rw [hfound] at h
    obtain ⟨⟨subnet, snName⟩, i⟩ := found
    dsimp only at h
    obtain ⟨ctx, hctx, h⟩ := Except.bind_eq_ok.mp h
    obtain ⟨classRows, hrows, h⟩ := Except.bind_eq_ok.mp h
    obtain ⟨options, hoptions, h⟩ := Except.bind_eq_ok.mp h
    obtain rfl := Option.some.inj (Except.ok.inj h)
    dsimp only at hclass hreserved ⊢
    rw [hclass, hreserved] at hoptions
    have hnone : (cfg.dhcp4.classes.filter fun c =>
        ([] : List String).any fun name => (valueOf "name" c).pyEq (.str name)) = [] := by simp
    rw [hnone] at hoptions
    exact hoptions

/-! ### The comparison -/

theorem networkSource_ne {name : Json} (h : source = "global" ∨ source = "subnet" ∨ source = "pool") :
    networkSource repr name ≠ source := by
  intro heq
  have hchars := congrArg String.toList heq
  unfold networkSource at hchars
  rw [String.toList_append] at hchars
  rcases h with rfl | rfl | rfl <;> simp at hchars

theorem source_of_networkEntries {entry : String × Fields} {name : Json}
    (h : entry ∈ networkEntries repr cfg name) : entry.1 = networkSource repr name := by
  unfold networkEntries at h
  cases hn : cfg.network name with
  | none =>
    rw [hn] at h
    exact absurd h List.not_mem_nil
  | some n =>
    rw [hn] at h
    exact source_of_tagged h

theorem source_of_poolEntries {entry : String × Fields} {chosen : SubnetEntry} {optionPool : Option PoolRow}
    (h : entry ∈ poolEntries chosen optionPool) : entry.1 = "pool" := by
  cases optionPool with
  | none => exact absurd h List.not_mem_nil
  | some p => exact source_of_tagged h

/-- The last entries are reported of. -/
theorem reports_last {before last : List Item} {item : Item} (h : item ∈ last) :
    ∃ item' ∈ last, Reports (before ++ last) item'.row.facts := by
  obtain ⟨y, hy⟩ := Option.isSome_iff_exists.mp (isSome_get_entry.mpr ⟨item, h, rfl⟩)
  obtain ⟨item', hitem', rfl⟩ := Reports.mem ⟨_, hy⟩
  refine ⟨item', hitem', item.place, ?_⟩
  rw [List.map_append, Overwritten.get_ofList_append, hy]
  rfl

/-- The entries with a place among those that outrank a network's. -/
theorem exists_later_iff {e : Answer} {place : Key × Key} :
    (∃ entry ∈ tagged "subnet" (optionsOf e.chosen.fields) ++ poolEntries e.chosen e.optionPool,
        placeOf entry.2 = .ok place) ↔ ∃ o ∈ e.later, placeOf o = .ok place := by
  have hentries : (tagged "subnet" (optionsOf e.chosen.fields) ++ poolEntries e.chosen e.optionPool).map Prod.snd =
      e.later := by
    unfold Answer.later poolEntries tagged
    cases e.optionPool with
    | none => simp [Function.comp_def]
    | some p => simp [Function.comp_def]
  rw [← hentries]
  constructor
  · rintro ⟨entry, hentry, hplace⟩
    exact ⟨entry.2, List.mem_map_of_mem hentry, hplace⟩
  · rintro ⟨o, ho, hplace⟩
    obtain ⟨entry, hentry, rfl⟩ := List.mem_map.mp ho
    exact ⟨entry, hentry, hplace⟩

/-- The levels of an explanation, as they are read: the section, the network, the subnet and the pool. -/
structure Parts (repr : Json → String) (cfg : Config) (e : Answer) (g n s p : List Item) : Prop where
  section_ : (tagged "global" cfg.dhcp4.optionData).mapM (readEntry repr) = .ok g
  network : (networkEntries repr cfg e.snName).mapM (readEntry repr) = .ok n
  subnet : (tagged "subnet" (optionsOf e.chosen.fields)).mapM (readEntry repr) = .ok s
  pool : (poolEntries e.chosen e.optionPool).mapM (readEntry repr) = .ok p

section Parts

variable {e : Answer} {g n s p : List Item}

theorem Parts.later (h : Parts repr cfg e g n s p) :
    (tagged "subnet" (optionsOf e.chosen.fields) ++ poolEntries e.chosen e.optionPool).mapM (readEntry repr) =
      .ok (s ++ p) := mapM_append_of_ok h.subnet h.pool

theorem Parts.sources (h : Parts repr cfg e g n s p) :
    ∀ item ∈ g ++ (s ++ p), item.row.source = "global" ∨ item.row.source = "subnet" ∨ item.row.source = "pool" := by
  intro item hitem
  rcases List.mem_append.mp hitem with hitem | hitem
  · obtain ⟨entry, hentry, hsource⟩ := source_of_mem h.section_ hitem
    exact .inl (hsource.trans (source_of_tagged hentry))
  · rcases List.mem_append.mp hitem with hitem | hitem
    · obtain ⟨entry, hentry, hsource⟩ := source_of_mem h.subnet hitem
      exact .inr (.inl (hsource.trans (source_of_tagged hentry)))
    · obtain ⟨entry, hentry, hsource⟩ := source_of_mem h.pool hitem
      exact .inr (.inr (hsource.trans (source_of_poolEntries hentry)))

theorem Parts.source_network (h : Parts repr cfg e g n s p) :
    ∀ item ∈ n, item.row.source = networkSource repr e.snName := by
  intro item hitem
  obtain ⟨entry, hentry, hsource⟩ := source_of_mem h.network hitem
  exact hsource.trans (source_of_networkEntries hentry)

/-- Above the pool no entry has its source. -/
theorem Parts.source_ne_pool (h : Parts repr cfg e g n s p) : ∀ item ∈ g ++ n ++ s, item.row.source ≠ "pool" := by
  intro item hitem heq
  rcases List.mem_append.mp hitem with hitem | hitem
  · rcases List.mem_append.mp hitem with hitem | hitem
    · obtain ⟨entry, hentry, hsource⟩ := source_of_mem h.section_ hitem
      have hglobal := hsource.trans (source_of_tagged hentry)
      rw [heq] at hglobal
      exact absurd hglobal (by decide)
    · exact networkSource_ne (.inr (.inr rfl)) ((h.source_network item hitem).symm.trans heq)
  · obtain ⟨entry, hentry, hsource⟩ := source_of_mem h.subnet hitem
    have hsubnet := hsource.trans (source_of_tagged hentry)
    rw [heq] at hsubnet
    exact absurd hsubnet (by decide)

theorem Parts.network_iff (h : Parts repr cfg e g n s p) :
    (∀ network, cfg.network e.snName = some network → ∀ o ∈ optionsOf network.fields,
        ∃ o' ∈ e.later, placeOf o' = placeOf o) ↔ ∀ item ∈ n, ∃ item' ∈ s ++ p, item'.place = item.place := by
  constructor
  · intro hgiven item hitem
    obtain ⟨⟨source, o⟩, hentry, hread⟩ := (Except.mem_of_mapM h.network).mp hitem
    have hplace := (readEntry_spec hread).1
    unfold networkEntries at hentry
    cases hnetwork : cfg.network e.snName with
    | none =>
      rw [hnetwork] at hentry
      exact absurd hentry List.not_mem_nil
    | some network =>
      rw [hnetwork] at hentry
      obtain ⟨o₁, ho₁, heq⟩ := List.mem_map.mp hentry
      obtain rfl : o₁ = o := congrArg Prod.snd heq
      obtain ⟨o', ho', hsame⟩ := hgiven network hnetwork o₁ ho₁
      rw [exists_place_iff h.later, exists_later_iff]
      exact ⟨o', ho', hsame.trans hplace⟩
  · intro hgiven network hnetwork o ho
    have hentry : (networkSource repr e.snName, o) ∈ networkEntries repr cfg e.snName := by
      unfold networkEntries
      rw [hnetwork]
      exact List.mem_map_of_mem ho
    obtain ⟨item, hread⟩ := Except.exists_of_mapM h.network hentry
    have hlater := hgiven item ((Except.mem_of_mapM h.network).mpr ⟨_, hentry, hread⟩)
    rw [exists_place_iff h.later, exists_later_iff] at hlater
    obtain ⟨o', ho', hsame⟩ := hlater
    exact ⟨o', ho', hsame.trans (readEntry_spec hread).1.symm⟩

theorem Parts.pool_iff (h : Parts repr cfg e g n s p) : poolEntries e.chosen e.optionPool = [] ↔ p = [] := by
  constructor
  · intro hnil
    have hpool := h.pool
    rw [hnil] at hpool
    exact (Except.ok.inj hpool).symm
  · intro hnil
    by_contra hne
    obtain ⟨entry, hentry⟩ := List.exists_mem_of_ne_nil _ hne
    obtain ⟨item, hread⟩ := Except.exists_of_mapM h.pool hentry
    have hitem : item ∈ p := (Except.mem_of_mapM h.pool).mpr ⟨entry, hentry, hread⟩
    rw [hnil] at hitem
    exact List.not_mem_nil hitem

/-- The condition, of what was read. -/
theorem Parts.namedSources_iff (h : Parts repr cfg e g n s p) :
    NamedSources cfg e ↔
      (e.snName = .null → ∀ item ∈ n, ∃ item' ∈ s ++ p, item'.place = item.place) ∧ (e.poolText = .null → p = []) := by
  have hpool : (∀ row ∈ e.optionPool, row.text = .null → poolOptions e.chosen .null = []) ↔
      (e.poolText = .null → p = []) := by
    rw [← h.pool_iff]
    unfold Answer.poolText poolEntries tagged
    cases e.optionPool with
    | none => simp
    | some row =>
      simp only [Option.mem_some_iff, forall_eq', Option.elim_some, List.map_eq_nil_iff]
      exact forall_congr' fun htext => by rw [htext]
  constructor
  · intro hnamed
    refine ⟨fun hname => h.network_iff.mp ?_, hpool.mp hnamed.pool⟩
    rw [hname]
    exact hnamed.network hname
  · rintro ⟨hnetwork, hp⟩
    refine ⟨fun hname => ?_, hpool.mpr hp⟩
    have hgiven := h.network_iff.mpr (hnetwork hname)
    rw [hname] at hgiven
    exact hgiven

/-- What the option page reads of the same subnet and pool: of what the explanation reads, not a network without a
name, nor a pool without a text. -/
theorem Parts.effective (h : Parts repr cfg e g n s p) {askedId : ℤ} {i : ℕ}
    (hasked : cfg.subnet4ById askedId = some ((e.chosen, e.snName), i)) :
    (entriesOf (levelsFor repr cfg askedId e.poolText)).mapM (readEntry repr) =
      .ok (g ++ (if e.snName = .null then [] else n) ++ (s ++ if e.poolText = .null then [] else p)) := by
  unfold Answer.poolText
  rw [entriesOf_levelsFor hasked]
  refine mapM_append_of_ok (mapM_append_of_ok h.section_ ?_) (mapM_append_of_ok h.subnet ?_)
  · split_ifs
    · rfl
    · exact h.network
  · split_ifs
    · rfl
    · exact h.pool

end Parts

end Agree

/-- The two agree on the subnet and the pool that the explanation answers with, for a client that matches no class
and has no options reserved, just where no option comes from something without a name. -/
theorem optionsAgree_iff (repr : Json → String) (cfg : Config) (free : Json → Option ℕ) (client : Client) (subnetId : ℤ)
    (reservations : List Reservation) (assigned : Option Assigned) (e : Answer)
    (h : explain repr cfg free client subnetId reservations assigned = .ok (some e)) (hclass : e.matchedNames = [])
    (hreserved : e.reserved = []) (askedId : ℤ) (i : ℕ)
    (hasked : cfg.subnet4ById askedId = some ((e.chosen, e.snName), i)) :
    Agrees repr cfg askedId e ↔ NamedSources cfg e := by
  have hexplained := explain_spec h hclass hreserved
  obtain ⟨items, hitems⟩ := exists_items hexplained
  have hreports := fun x => @mem_mergeOptions repr _ _ _ x hitems hexplained
  rw [entriesOf_explainLevels] at hitems
  obtain ⟨gn, sp, hgn, hsp, rfl⟩ := mapM_append_ok hitems
  obtain ⟨g, n, hg, hn, rfl⟩ := mapM_append_ok hgn
  obtain ⟨s, p, hs, hp, rfl⟩ := mapM_append_ok hsp
  have hparts : Parts repr cfg e g n s p := ⟨hg, hn, hs, hp⟩
  have heffective := hparts.effective hasked
  obtain ⟨rows, hrows⟩ := exists_mergeOptions heffective
  have hagrees : Agrees repr cfg askedId e ↔ ∀ x,
      Reports (g ++ (if e.snName = .null then [] else n) ++ (s ++ if e.poolText = .null then [] else p)) x ↔
        Reports (g ++ n ++ (s ++ p)) x := by
    have hsame : SameOptions rows e.options ↔ _ :=
      forall_congr' fun x => by rw [mem_mergeOptions heffective hrows, hreports]
    rw [← hsame]
    constructor
    · rintro ⟨rows', hrows', h'⟩
      obtain rfl : rows = rows' := Except.ok.inj (hrows.symm.trans hrows')
      exact h'
    · exact fun h' => ⟨rows, hrows, h'⟩
  rw [hagrees, hparts.namedSources_iff]
  by_cases hpool : e.poolText = .null ∧ p ≠ []
  · -- the options of a pool without a text are in the explanation alone
    obtain ⟨htext, hne⟩ := hpool
    refine iff_of_false (fun hall => ?_) fun hnamed => hne (hnamed.2 htext)
    obtain ⟨item, hitem⟩ := List.exists_mem_of_ne_nil p hne
    obtain ⟨last, hlast, hreport⟩ := @reports_last (g ++ n ++ s) p item hitem
    rw [List.append_assoc (g ++ n)] at hreport
    rw [if_pos htext, List.append_nil] at hall
    obtain ⟨item', hitem', heq⟩ := ((hall _).mpr hreport).mem
    obtain ⟨entry, hentry, hsource⟩ := source_of_mem hp hlast
    have hsources : item'.row.source = last.row.source := congrArg (fun x => x.2.2) heq
    refine hparts.source_ne_pool item' ?_ (hsources.trans (hsource.trans (source_of_poolEntries hentry)))
    split_ifs at hitem'
    · rw [List.append_nil] at hitem'
      rcases List.mem_append.mp hitem' with hitem' | hitem'
      · exact List.mem_append_left s (List.mem_append_left n hitem')
      · exact List.mem_append_right (g ++ n) hitem'
    · exact hitem'
  · have htail : (if e.poolText = .null then [] else p) = p := by
      split_ifs with htext
      · by_contra hne
        exact hpool ⟨htext, fun hnil => hne hnil.symm⟩
      · rfl
    have hnil : e.poolText = .null → p = [] := fun htext => not_not.mp fun hne => hpool ⟨htext, hne⟩
    rw [htail, and_iff_left hnil]
    by_cases hname : e.snName = .null
    · rw [if_pos hname, List.append_nil, ← reports_middle_iff hparts.source_network fun item hitem heq =>
        networkSource_ne (hparts.sources item hitem) heq.symm]
      exact ⟨fun hall _ => hall, fun hall => hall hname⟩
    · rw [if_neg hname]
      exact iff_of_true (fun _ => Iff.rfl) fun hnull => absurd hnull hname

/-- A subnet of its own, and one in a shared network with the name and a router. -/
def besideNetwork (name : Fields) : Config where
  fields := []
  dhcp4 :=
    { subnets := [{ fields := [("id", .int 1), ("subnet", .str "10.0.1.0/24")] }]
      networks :=
        [{ fields := name ++ [("option-data", .arr [.obj [("name", .str "routers"), ("data", .str "10.0.2.1")]])]
           subnets := [{ fields := [("id", .int 2), ("subnet", .str "10.0.2.0/24"),
             ("option-data", .arr [.obj [("code", .int 3), ("data", .str "10.0.2.254")]])] }] }] }

/-- What is explained of a subnet for a client of which nothing is known. -/
def answerIn (name : Fields) (subnetId : ℤ) : Except Raised (Option Answer) :=
  explain (fun _ => "") (besideNetwork name) (fun _ => none) { mac := "aa:bb:cc:dd:ee:ff" } subnetId [] none

/-- In a network with a name the two agree. -/
theorem agrees_inNetwork : ∃ e, answerIn [("name", .str "floor")] 2 = .ok (some e) ∧
    Agrees (fun _ => "") (besideNetwork [("name", .str "floor")]) 2 e := by
  refine ⟨_, rfl, ?_⟩
  refine (optionsAgree_iff (fun _ => "") (besideNetwork [("name", .str "floor")]) (fun _ => none)
    { mac := "aa:bb:cc:dd:ee:ff" } 2 [] none _ rfl rfl rfl 2 1 rfl).mpr ⟨fun hname => ?_, fun p hp => ?_⟩
  · cases hname
  · cases hp

/-- Beside a network without a name, a subnet outside it is said to have its router. -/
theorem routerOfNone :
    ¬ ∀ (repr : Json → String) (cfg : Config) (free : Json → Option ℕ) (client : Client) (subnetId : ℤ)
      (reservations : List Reservation) (assigned : Option Assigned) (e : Answer),
      explain repr cfg free client subnetId reservations assigned = .ok (some e) → e.matchedNames = [] →
      e.reserved = [] → ∀ (askedId : ℤ) (i : ℕ), cfg.subnet4ById askedId = some ((e.chosen, e.snName), i) →
      Agrees repr cfg askedId e := by
  intro h
  obtain ⟨rows, hrows, hsame⟩ := h (fun _ => "") (besideNetwork []) (fun _ => none) { mac := "aa:bb:cc:dd:ee:ff" } 1 []
    none _ rfl rfl rfl 1 0 rfl
  obtain rfl : [] = rows := Except.ok.inj hrows
  exact List.not_mem_nil ((hsame (.int 3, .str "10.0.2.1", "shared-network:None")).mpr (List.mem_singleton.mpr rfl))

end JenKea.Explain
