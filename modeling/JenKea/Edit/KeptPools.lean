import JenKea.Edit.SubnetRuns

/-!
# The pools of a subnet that is edited

The form of a subnet carries the texts of its pools and nothing else of them, and `_set_pools` writes them as the
entries of the pools. A pool keeps what it has besides its text just where it has nothing: a guard is lost even by
an edit that leaves every text as it was.
-/

namespace JenKea.Edit

open Json

/-! ## Pools -/

/-- The text of an entry. -/
def poolText : Json → Option String
  | .obj p =>
    match lookup "pool" p with
    | some (.str text) => some text
    | _ => none
  | _ => none

/-- The entry of a text, as `_set_pools` writes it. -/
def bareEntry (text : String) : Json := .obj [("pool", .str text)]

/-- The pools of a subnet. -/
def poolsIn (s : Fields) : List Json :=
  match lookup "pools" s with
  | some (.arr pools) => pools
  | _ => []

/-- The pools of the subnet with the id. -/
def poolsOf (cfg : Config) (id : Json) : List Json :=
  ((cfg.dhcp4.iterSubnets.find? (hasId id)).map poolsIn).getD []

/-- The texts that the form submits, where it names a pool. -/
def Form4.texts (form : Form4) : List String := if form.newPool = "" then [] else form.newPool :: form.extraPools

/-- The pools whose texts are submitted are kept. -/
structure KeepsPools (texts : List String) (before after : List Json) : Prop where
  /-- Where the texts are those of the pools, in their order, every entry is as it was. -/
  same : before.map poolText = texts.map some → after = before
  /-- Where others are added, removed or put in another place, an entry whose text is kept is as it was. -/
  kept : ∀ p ∈ before, ∀ text ∈ texts, poolText p = some text → p ∈ after

theorem poolText_bareEntry (text : String) : poolText (bareEntry text) = some text := rfl

section Entries

variable {text : String} {texts : List String} {pools : List Json}

/-- What equals the entry of a text is it. -/
theorem eq_bareEntry_of_pyEq {p : Json} (h : p.pyEq (bareEntry text) = true) : p = bareEntry text := by
  cases p with
  | obj fs =>
    obtain ⟨hlength, hfields⟩ := Bool.and_eq_true_iff.mp h
    obtain ⟨⟨k, v⟩, rfl⟩ := List.length_eq_one_iff.mp (beq_iff_eq.mp hlength)
    obtain ⟨w, hw, hvw⟩ := pyEqFields_iff.mp hfields (k, v) List.mem_cons_self
    obtain ⟨hkey, hvalue⟩ := Prod.mk.inj (List.mem_singleton.mp (mem_of_lookup hw))
    dsimp only at hkey hvw
    rw [hvalue] at hvw
    rw [hkey, eq_str_of_pyEq hvw]
    rfl
  | null | str _ | arr _ => cases h
  | bool _ | int _ | float _ =>
    have hnumber : (_ == none) = true := h
    cases hnumber

/-- What equals the entries of some texts are these. -/
theorem eq_map_bareEntry_of_pyEq (h : pyEqList pools (texts.map bareEntry) = true) :
    pools = texts.map bareEntry := by
  induction texts generalizing pools with
  | nil =>
    cases pools with
    | nil => rfl
    | cons p pools => cases h
  | cons text texts ih =>
    cases pools with
    | nil => cases h
    | cons p pools =>
      obtain ⟨hp, hpools⟩ := Bool.and_eq_true_iff.mp h
      rw [List.map_cons, eq_bareEntry_of_pyEq hp, ih hpools]

/-- Entries that have their texts and nothing else are those of their texts. -/
theorem map_bareEntry_eq (htexts : pools.map poolText = texts.map some)
    (hbare : ∀ p ∈ pools, ∀ text ∈ texts, poolText p = some text → p = bareEntry text) :
    texts.map bareEntry = pools := by
  induction texts generalizing pools with
  | nil => exact (List.map_eq_nil_iff.mp htexts).symm
  | cons text texts ih =>
    cases pools with
    | nil => cases htexts
    | cons p pools =>
      obtain ⟨hp, hpools⟩ := List.cons.inj htexts
      rw [List.map_cons, ← hbare p List.mem_cons_self text List.mem_cons_self hp]
      refine congrArg _ (ih hpools fun q hq t ht => ?_)
      exact hbare q (List.mem_cons_of_mem p hq) t (List.mem_cons_of_mem text ht)

/-- The entries of the submitted texts keep the pools just where each of these has its text and nothing else. -/
theorem keepsPools_bareEntries :
    KeepsPools texts pools (texts.map bareEntry) ↔
      ∀ p ∈ pools, ∀ text ∈ texts, poolText p = some text → p = bareEntry text := by
  constructor
  · intro h p hp text htext hread
    obtain ⟨text', -, rfl⟩ := List.mem_map.mp (h.kept p hp text htext hread)
    rw [Option.some.inj ((poolText_bareEntry text').symm.trans hread)]
  · intro h
    refine ⟨fun htexts => map_bareEntry_eq htexts h, fun p hp text htext hread => ?_⟩
    rw [h p hp text htext hread]
    exact List.mem_map_of_mem htext

end Entries

/-! ## The patch -/

/-- A part of a patch leaves the value of a key. -/
def Step.Leaves (key : String) (step : Step) : Prop :=
  ∀ s s' changed, step s = .ok (s', changed) → lookup key s' = lookup key s

section Leaves

variable {key k : String}

theorem leaves_setIfDifferent {v : Json} (h : k ≠ key) : (setIfDifferent k v).Leaves key := by
  intro s s' changed hstep
  unfold setIfDifferent at hstep
  split_ifs at hstep with hsame
  · rw [← (Prod.mk.inj (Except.ok.inj hstep)).1]
  · rw [← (Prod.mk.inj (Except.ok.inj hstep)).1, lookup_set_ne h]

theorem leaves_setNumber {text : String} (h : k ≠ key) : (setNumber k text).Leaves key := by
  intro s s' changed hstep
  unfold setNumber at hstep
  split_ifs at hstep with hempty
  · rw [← (Prod.mk.inj (Except.ok.inj hstep)).1]
  · cases hint : Text.toInt text with
    | none =>
      rw [hint] at hstep
      cases hstep
    | some n =>
      rw [hint] at hstep
      exact leaves_setIfDifferent h s s' changed hstep

theorem leaves_setOptions {options : List OptionField} (h : "option-data" ≠ key) :
    (setOptions options).Leaves key := by
  intro s s' changed hstep
  unfold setOptions at hstep
  split_ifs at hstep with hempty
  · rw [← (Prod.mk.inj (Except.ok.inj hstep)).1]
  · split at hstep
    · rw [← (Prod.mk.inj (Except.ok.inj hstep)).1, lookup_set_ne h]
    · cases hstep

theorem leaves_steps {parts : List Step} (hparts : ∀ step ∈ parts, Step.Leaves key step) :
    (steps parts).Leaves key := by
  induction parts with
  | nil =>
    intro s s' changed hstep
    rw [← (Prod.mk.inj (Except.ok.inj hstep)).1]
  | cons step parts ih =>
    intro s s' changed hstep
    obtain ⟨⟨s₁, changed₁⟩, hfirst, hstep⟩ := Except.bind_eq_ok.mp hstep
    obtain ⟨⟨s₂, changed₂⟩, hrest, hstep⟩ := Except.bind_eq_ok.mp hstep
    obtain ⟨rfl, rfl⟩ := Prod.mk.inj (Except.ok.inj hstep)
    have hparts' := ih (fun step' hstep' => hparts step' (List.mem_cons_of_mem _ hstep'))
    exact (hparts' _ _ _ hrest).trans (hparts step List.mem_cons_self _ _ _ hfirst)

end Leaves

/-- After a patch the pools are the entries of the texts, where the form submits any. -/
theorem poolsIn_step {form : Form4} {s s' : Fields} {changed : Bool} (h : form.step s = .ok (s', changed)) :
    poolsIn s' = if form.newPool = "" then poolsIn s else form.texts.map bareEntry := by
  obtain ⟨⟨s₁, changed₁⟩, hpools, h⟩ := Except.bind_eq_ok.mp h
  obtain ⟨⟨s₂, changed₂⟩, hrest, h⟩ := Except.bind_eq_ok.mp h
  obtain ⟨rfl, rfl⟩ := Prod.mk.inj (Except.ok.inj h)
  have hleaves : (steps [setNumber "valid-lifetime" form.newLifetime, setNumber "renew-timer" form.newRenew,
      setNumber "rebind-timer" form.newRebind, setOptions [⟨"routers", 3, "dhcp4", form.newRouters⟩,
        ⟨"domain-name-servers", 6, "dhcp4", form.newDns⟩]]).Leaves "pools" := by
    refine leaves_steps ?_
    simp only [List.forall_mem_cons, List.not_mem_nil, false_imp_iff, implies_true, and_true]
    exact ⟨leaves_setNumber (by decide), leaves_setNumber (by decide), leaves_setNumber (by decide),
      leaves_setOptions (by decide)⟩
  have hlookup := hleaves _ _ _ hrest
  unfold setPools at hpools
  unfold poolsIn Form4.texts
  rw [hlookup]
  split_ifs at hpools ⊢ with hempty
  · rw [← (Prod.mk.inj (Except.ok.inj hpools)).1]
  · have hset : lookup "pools" s₁ = some (.arr ((form.newPool :: form.extraPools).map bareEntry)) := by
      unfold setIfDifferent at hpools
      split_ifs at hpools with hsame
      · -- what compares equal to the entries of the texts is these
        rw [← (Prod.mk.inj (Except.ok.inj hpools)).1]
        unfold valueOf at hsame
        cases hpool : lookup "pools" s with
        | none =>
          rw [hpool] at hsame
          cases hsame
        | some v =>
          rw [hpool] at hsame
          cases v with
          | arr pools => rw [eq_map_bareEntry_of_pyEq hsame]
          | null | str _ | obj _ => cases hsame
          | bool _ | int _ | float _ =>
            have hnumber : (_ == none) = true := hsame
            cases hnumber
      · rw [← (Prod.mk.inj (Except.ok.inj hpools)).1]
        exact lookup_set_self
    rw [hset]

/-- After a change of the first container with the property, its subnet comes first. -/
theorem find?_overFirst {sec : Section} {p : Fields → Bool} {g : List Fields → List Fields} {s' : Fields}
    (hany : sec.iterSubnets.any p = true) (hg : ∀ subs : List Fields, subs.any p = true → (g subs).find? p = some s') :
    (sec.overFirst p g).iterSubnets.find? p = some s' := by
  obtain ⟨left, subs, right, -, hsubs, hleft, hover, -⟩ := sec.exists_overFirst g hany
  have hnone : left.flatten.find? p = none := by
    rw [List.find?_eq_none]
    intro t ht
    obtain ⟨c, hc, htc⟩ := List.mem_flatten.mp ht
    exact List.any_eq_false.mp (hleft c hc) t htc
  rw [iterSubnets_eq, hover, List.flatten_append, List.find?_append, hnone, Option.none_or, List.flatten_cons,
    List.find?_append, hg subs hsubs, Option.some_or]

theorem find?_set_findIdx {p : Fields → Bool} {subs : List Fields} {s' : Fields} (hs' : p s' = true)
    (h : subs.any p = true) : (subs.set (subs.findIdx p) s').find? p = some s' := by
  induction subs with
  | nil => cases h
  | cons s subs ih =>
    rw [List.findIdx_cons]
    cases hs : p s with
    | true => simp [hs']
    | false =>
      have hrest : subs.any p = true := by simpa [hs] using h
      simp [hs, ih hrest]

/-- The pools of the subnet after an edit. -/
theorem poolsOf_patchSubnet4 {cfg cfg' : Config} {id : Json} {form : Form4} {report : Report}
    (h : patchSubnet4 cfg id form = .ok (cfg', report)) :
    poolsOf cfg' id = if form.newPool = "" ∨ cfg.dhcp4.iterSubnets.find? (hasId id) = none then poolsOf cfg id
      else form.texts.map bareEntry := by
  obtain ⟨⟨sec', changed⟩, hpatch, h⟩ := Except.bind_eq_ok.mp h
  obtain ⟨rfl, rfl⟩ := Prod.mk.inj (Except.ok.inj h)
  unfold Section.patch at hpatch
  cases hfind : cfg.dhcp4.iterSubnets.find? (hasId id) with
  | none =>
    rw [hfind] at hpatch
    obtain ⟨rfl, rfl⟩ := Prod.mk.inj (Except.ok.inj hpatch)
    rw [if_pos (.inr rfl)]
  | some s =>
    rw [hfind] at hpatch
    obtain ⟨⟨s', changed'⟩, hstep, hpatch⟩ := Except.bind_eq_ok.mp hpatch
    obtain ⟨rfl, rfl⟩ := Prod.mk.inj (Except.ok.inj hpatch)
    have hs : hasId id s = true := List.find?_some hfind
    have hid : hasId id s' = true := by
      unfold hasId at hs ⊢
      rw [(form.sound s s' changed' hstep).1]
      exact hs
    have hany : cfg.dhcp4.iterSubnets.any (hasId id) = true :=
      List.any_eq_true.mpr ⟨s, List.mem_of_find?_eq_some hfind, List.find?_some hfind⟩
    have hfound := find?_overFirst hany fun subs hsubs => find?_set_findIdx hid hsubs
    unfold poolsOf
    rw [hfound, hfind]
    simpa using poolsIn_step hstep

/-- An edit keeps the pools whose texts it submits just where none of them has anything besides its text. -/
theorem keepsPools_iff {cfg cfg' : Config} {id : Json} {form : Form4} {report : Report}
    (h : patchSubnet4 cfg id form = .ok (cfg', report)) :
    KeepsPools form.texts (poolsOf cfg id) (poolsOf cfg' id) ↔
      ∀ p ∈ poolsOf cfg id, ∀ text ∈ form.texts, poolText p = some text → p = bareEntry text := by
  rw [poolsOf_patchSubnet4 h]
  by_cases hempty : form.newPool = ""
  · have htexts : form.texts = [] := if_pos hempty
    rw [if_pos (.inl hempty), htexts]
    constructor
    · intro _ p _ text htext
      cases htext
    · intro _
      exact ⟨fun _ => rfl, fun p hp _ _ _ => hp⟩
  · by_cases hnone : cfg.dhcp4.iterSubnets.find? (hasId id) = none
    · have hpools : poolsOf cfg id = [] := by
        unfold poolsOf
        rw [hnone]
        rfl
      rw [if_pos (.inr hnone), hpools]
      constructor
      · intro _ p hp
        cases hp
      · intro _
        exact ⟨fun _ => rfl, fun p hp => absurd hp List.not_mem_nil⟩
    · rw [if_neg (not_or.mpr ⟨hempty, hnone⟩)]
      exact keepsPools_bareEntries

/-- A subnet with one pool, for the clients of one class. -/
def guarded : Fields :=
  [("id", .int 1), ("subnet", .str "10.0.0.0/24"),
    ("pools", .arr [.obj [("pool", .str "10.0.0.10 - 10.0.0.20"), ("client-class", .str "voip")]])]

/-- The form of the subnet, where only the lifetime is another. -/
def lifetimeForm : Form4 := { newPool := "10.0.0.10 - 10.0.0.20", newLifetime := "7200" }

/-- The subnet after the edit. -/
def unguarded : Fields :=
  [("id", .int 1), ("subnet", .str "10.0.0.0/24"),
    ("pools", .arr [.obj [("pool", .str "10.0.0.10 - 10.0.0.20")]]), ("valid-lifetime", .int 7200)]

theorem patchSubnet4_guarded :
    patchSubnet4 ⟨[], ⟨[], some [guarded], none⟩, none⟩ (.int 1) lifetimeForm =
      .ok (⟨[], ⟨[], some [unguarded], none⟩, none⟩, .changed true) := by decide

theorem poolsOf_unguarded :
    poolsOf ⟨[], ⟨[], some [unguarded], none⟩, none⟩ (.int 1) = [bareEntry "10.0.0.10 - 10.0.0.20"] := by
  decide

/-- The subnet has one pool, whose guard is lost with an edit of the lifetime. -/
theorem lifetime_unguards :
    ¬ ∀ (cfg cfg' : Config) (id : Json) (form : Form4) (report : Report),
      patchSubnet4 cfg id form = .ok (cfg', report) → KeepsPools form.texts (poolsOf cfg id) (poolsOf cfg' id) := by
  intro h
  have hkept := (h _ _ _ _ _ patchSubnet4_guarded).same (by decide)
  rw [poolsOf_unguarded] at hkept
  revert hkept
  decide

theorem patchSubnet4_unguarded :
    patchSubnet4 ⟨[], ⟨[], some [unguarded], none⟩, none⟩ (.int 1) lifetimeForm =
      .ok (⟨[], ⟨[], some [unguarded], none⟩, none⟩, .changed false) := by decide

/-- The pool that the edit has left bare is kept by the next edit. -/
theorem keepsPools_unguarded :
    KeepsPools lifetimeForm.texts (poolsOf ⟨[], ⟨[], some [unguarded], none⟩, none⟩ (.int 1))
      (poolsOf ⟨[], ⟨[], some [unguarded], none⟩, none⟩ (.int 1)) := by
  refine (keepsPools_iff patchSubnet4_unguarded).mpr ?_
  rw [poolsOf_unguarded]
  intro p hp text _ htext
  rw [List.mem_singleton.mp hp] at htext ⊢
  rw [Option.some.inj htext]

end JenKea.Edit
