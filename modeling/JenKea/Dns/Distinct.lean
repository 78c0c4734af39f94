import JenKea.Dns.Names
import Mathlib.Data.List.Dedup

/-!
# Names that are told apart

`normalize_desired` gives every address whose hostname is a label one name, and no two addresses one name, unless
a suffix makes a name that another address has as its own: two addresses are called `tv`, and a third one is
called `tv-2`. Then one of the records is lost, and which one depends on the order of the mapping.
-/

namespace JenKea.Dns

/-! ## The candidates -/

/-- The addresses whose hostnames are labels, with their names. -/
def normalizedNames (rawDesired : Map Address (String × Source)) : List (Address × Name) :=
  rawDesired.entries.filterMap fun x =>
    match normalizeName x.2.1 with
    | .ok name => some (x.1, name)
    | .error _ => none

/-- The addresses of a name. -/
def addressesOf (candidates : List (Address × Name)) (name : Name) : List Address :=
  ((candidates.filter fun x => x.2 = name).map Prod.fst).dedup

/-- The addresses of a name, from the lowest. -/
def orderedFor (candidates : List (Address × Name)) (name : Name) : List Address :=
  (addressesOf candidates name).mergeSort fun a b => a.number ≤ b.number

/-- The name of a candidate after `dedupe_names`. -/
def finalName (candidates : List (Address × Name)) (x : Address × Name) : Name :=
  match suffixFor candidates x.2 x.1 with
  | some suffix => x.2.suffixed suffix
  | none => x.2

/-- No suffix that is given makes a name that is an address's own. -/
def NoClash (candidates : List (Address × Name)) : Prop :=
  ∀ name suffix, 2 ≤ suffix → suffix ≤ (addressesOf candidates name).length →
    ∀ x ∈ candidates, x.2 ≠ name.suffixed suffix

section Candidates

variable {candidates : List (Address × Name)} {name : Name} {ip : Address} {x y : Address × Name}

theorem mem_addressesOf : ip ∈ addressesOf candidates name ↔ (ip, name) ∈ candidates := by
  unfold addressesOf
  rw [List.mem_dedup, List.mem_map]
  constructor
  · rintro ⟨⟨ip', name'⟩, hmem, rfl⟩
    obtain ⟨hcandidate, hname⟩ := List.mem_filter.mp hmem
    obtain rfl : name' = name := of_decide_eq_true hname
    exact hcandidate
  · intro hmem
    exact ⟨(ip, name), List.mem_filter.mpr ⟨hmem, decide_eq_true rfl⟩, rfl⟩

theorem orderedFor_perm (candidates : List (Address × Name)) (name : Name) :
    (orderedFor candidates name).Perm (addressesOf candidates name) := List.mergeSort_perm ..

theorem nodup_orderedFor : (orderedFor candidates name).Nodup :=
  (orderedFor_perm candidates name).nodup_iff.mpr (List.nodup_dedup _)

theorem length_orderedFor : (orderedFor candidates name).length = (addressesOf candidates name).length :=
  (orderedFor_perm candidates name).length_eq

theorem suffixFor_eq (candidates : List (Address × Name)) (name : Name) (ip : Address) :
    suffixFor candidates name ip =
      if (addressesOf candidates name).length ≤ 1 then none
      else match (orderedFor candidates name).idxOf ip with
        | 0 => none
        | i + 1 => some (i + 2) := rfl

/-- A suffix is the place of the address, in the order of its name's addresses. -/
theorem suffixFor_eq_some {suffix : ℕ} (h : suffixFor candidates name ip = some suffix)
    (hmem : (ip, name) ∈ candidates) :
    2 ≤ suffix ∧ suffix ≤ (addressesOf candidates name).length ∧
      (orderedFor candidates name)[suffix - 1]? = some ip := by
  have hip : ip ∈ orderedFor candidates name := (orderedFor_perm _ _).mem_iff.mpr (mem_addressesOf.mpr hmem)
  have hlt := List.idxOf_lt_length_of_mem hip
  rw [suffixFor_eq] at h
  split_ifs at h with hone
  split at h
  · cases h
  · next i hi =>
    obtain rfl : i + 2 = suffix := Option.some.inj h
    have hget : (orderedFor candidates name)[(orderedFor candidates name).idxOf ip]? = some ip :=
      List.getElem?_idxOf hip
    rw [hi] at hget hlt
    rw [length_orderedFor] at hlt
    refine ⟨by omega, by omega, ?_⟩
    show (orderedFor candidates name)[i + 1]? = some ip
    exact hget

/-- An address that has a place after the first has its place as suffix. -/
theorem suffixFor_of_getElem {suffix : ℕ} (htwo : 2 ≤ suffix)
    (h : (orderedFor candidates name)[suffix - 1]? = some ip) : suffixFor candidates name ip = some suffix := by
  obtain ⟨i, rfl⟩ : ∃ i, suffix = i + 2 := ⟨suffix - 2, by omega⟩
  obtain ⟨hlt, hget⟩ := List.getElem?_eq_some_iff.mp h
  have hidx : (orderedFor candidates name).idxOf ip = i + 1 := by
    rw [← hget, nodup_orderedFor.idxOf_getElem]
    omega
  rw [length_orderedFor] at hlt
  rw [suffixFor_eq, if_neg (by omega), hidx]

/-- Of the addresses of a name, one has no suffix. -/
theorem eq_of_suffixFor_eq_none {ip' : Address} (h : suffixFor candidates name ip = none)
    (h' : suffixFor candidates name ip' = none) (hmem : (ip, name) ∈ candidates)
    (hmem' : (ip', name) ∈ candidates) : ip = ip' := by
  have hip := mem_addressesOf.mpr hmem
  have hip' := mem_addressesOf.mpr hmem'
  rw [suffixFor_eq] at h h'
  split_ifs at h h' with hone
  · -- the name has one address
    obtain ⟨first, hfirst⟩ := List.length_eq_one_iff.mp
      (Nat.le_antisymm hone (List.length_pos_of_mem hip))
    rw [hfirst, List.mem_singleton] at hip hip'
    rw [hip, hip']
  · have hzero : ∀ {ip : Address}, (match (orderedFor candidates name).idxOf ip with
        | 0 => none
        | i + 1 => some (i + 2)) = (none : Option ℕ) → (orderedFor candidates name).idxOf ip = 0 := by
      intro ip hnone
      split at hnone
      · assumption
      · cases hnone
    have hmem : ip ∈ orderedFor candidates name := (orderedFor_perm _ _).mem_iff.mpr hip
    exact (List.idxOf_inj hmem).mp ((hzero h).trans (hzero h').symm)

/-- One of the addresses of a name has no suffix. -/
theorem exists_suffixFor_eq_none (h : (ip, name) ∈ candidates) :
    ∃ ip', (ip', name) ∈ candidates ∧ suffixFor candidates name ip' = none := by
  have hip : ip ∈ orderedFor candidates name := (orderedFor_perm _ _).mem_iff.mpr (mem_addressesOf.mpr h)
  cases hordered : orderedFor candidates name with
  | nil => rw [hordered] at hip; cases hip
  | cons first rest =>
    have hmem : first ∈ orderedFor candidates name := by rw [hordered]; exact List.mem_cons_self
    refine ⟨first, mem_addressesOf.mp ((orderedFor_perm _ _).mem_iff.mp hmem), ?_⟩
    rw [suffixFor_eq, hordered, List.idxOf_cons_self]
    split_ifs <;> rfl

end Candidates

/-! ## Suffixes -/

/-- What stands before and after the last dash. -/
theorem append_dash_inj {as bs ds es : List Char} (hds : '-' ∉ ds) (hes : '-' ∉ es)
    (h : as ++ '-' :: ds = bs ++ '-' :: es) : as = bs ∧ ds = es := by
  have htake : ∀ {as ds : List Char}, '-' ∉ ds →
      (as ++ '-' :: ds).reverse.takeWhile (· ≠ '-') = ds.reverse := by
    intro as ds hds
    have hall : ∀ c ∈ ds.reverse, decide (c ≠ '-') = true := fun c hc =>
      decide_eq_true fun heq => hds (heq ▸ List.mem_reverse.mp hc)
    rw [List.reverse_append, List.reverse_cons, List.append_assoc, List.takeWhile_append_of_pos hall]
    simp
  have hdigits : ds = es := by
    have hrev : ds.reverse = es.reverse := by rw [← htake hds, h, htake hes]
    exact List.reverse_inj.mp hrev
  subst hdigits
  exact ⟨List.append_cancel_right h, rfl⟩

/-- A name with a suffix is one name with one suffix. -/
theorem suffixed_inj {name name' : Name} {i j : ℕ} (h : name.suffixed i = name'.suffixed j) :
    name = name' ∧ i = j := by
  have hdash : ∀ n, '-' ∉ Nat.toDigits 10 n := fun n hmem =>
    absurd (Nat.isDigit_of_mem_toDigits (by decide) (by decide) hmem) (by decide)
  have htext : name.text.toList ++ '-' :: Nat.toDigits 10 i = name'.text.toList ++ '-' :: Nat.toDigits 10 j := by
    have := congrArg (fun n : Name => n.text.toList) h
    simpa [Name.suffixed] using this
  obtain ⟨hname, hdigits⟩ := append_dash_inj (hdash i) (hdash j) htext
  refine ⟨Name.eq_of_text (String.toList_inj.mp hname), ?_⟩
  calc i = Nat.ofDigitChars 10 (Nat.toDigits 10 i) 0 := (Nat.ofDigitChars_toDigits (by decide) (by decide)).symm
    _ = Nat.ofDigitChars 10 (Nat.toDigits 10 j) 0 := by rw [hdigits]
    _ = j := Nat.ofDigitChars_toDigits (by decide) (by decide)

/-! ## The names of the addresses -/

section Final

variable {candidates : List (Address × Name)} {x y : Address × Name}

/-- Without a clash, two candidates of one final name are one. -/
theorem eq_of_finalName_eq (hclash : NoClash candidates) (hx : x ∈ candidates) (hy : y ∈ candidates)
    (h : finalName candidates x = finalName candidates y) : x = y := by
  obtain ⟨ip, name⟩ := x
  obtain ⟨ip', name'⟩ := y
  unfold finalName at h
  cases hsuffix : suffixFor candidates name ip with
  | none =>
    cases hsuffix' : suffixFor candidates name' ip' with
    | none =>
      simp only [hsuffix, hsuffix'] at h
      subst h
      rw [eq_of_suffixFor_eq_none hsuffix hsuffix' hx hy]
    | some j =>
      simp only [hsuffix, hsuffix'] at h
      obtain ⟨htwo, hlen, -⟩ := suffixFor_eq_some hsuffix' hy
      exact absurd h (hclash name' j htwo hlen _ hx)
  | some i =>
    obtain ⟨htwo, hlen, hget⟩ := suffixFor_eq_some hsuffix hx
    cases hsuffix' : suffixFor candidates name' ip' with
    | none =>
      simp only [hsuffix, hsuffix'] at h
      exact absurd h.symm (hclash name i htwo hlen _ hy)
    | some j =>
      simp only [hsuffix, hsuffix'] at h
      obtain ⟨rfl, rfl⟩ := suffixed_inj h
      obtain ⟨-, -, hget'⟩ := suffixFor_eq_some hsuffix' hy
      rw [Option.some.inj (hget.symm.trans hget')]

/-- With a clash, two candidates have one final name. -/
theorem exists_finalName_eq (hclash : ¬ NoClash candidates) :
    ∃ x ∈ candidates, ∃ y ∈ candidates, x ≠ y ∧ finalName candidates x = finalName candidates y := by
  unfold NoClash at hclash
  push Not at hclash
  obtain ⟨name, suffix, htwo, hlen, ⟨ip, _⟩, hmem, rfl⟩ := hclash
  -- the address whose place is the suffix, and the lowest of those that have the suffixed name as their own
  have hlt : suffix - 1 < (orderedFor candidates name).length := by
    rw [length_orderedFor]
    omega
  have hplace : (orderedFor candidates name)[suffix - 1]? = some ((orderedFor candidates name)[suffix - 1]) :=
    List.getElem?_eq_getElem hlt
  have hfirst := mem_addressesOf.mp ((orderedFor_perm candidates name).mem_iff.mp (List.getElem_mem hlt))
  obtain ⟨ip', hmem', hnone⟩ := exists_suffixFor_eq_none hmem
  refine ⟨_, hfirst, _, hmem', fun heq => ?_, ?_⟩
  · have hlength := congrArg (fun n : Name => n.text.toList.length) (Prod.mk.inj heq).2
    simp [Name.suffixed] at hlength
  · simp only [finalName, suffixFor_of_getElem htwo hplace, hnone]

/-- The names of the addresses differ just where there is no clash. -/
theorem nodup_dedupeNames_iff (hnodup : candidates.Nodup) :
    ((dedupeNames candidates).map Prod.snd).Nodup ↔ NoClash candidates := by
  have hmap : (dedupeNames candidates).map Prod.snd = candidates.map (finalName candidates) := by
    unfold dedupeNames finalName
    rw [List.map_map]
    rfl
  rw [hmap]
  constructor
  · intro h
    by_contra hclash
    obtain ⟨x, hx, y, hy, hne, heq⟩ := exists_finalName_eq hclash
    exact hne (List.inj_on_of_nodup_map h hx hy heq)
  · intro hclash
    exact hnodup.map_on fun x hx y hy heq => eq_of_finalName_eq hclash hx hy heq

end Final

/-! ## The order of the mapping -/

section Order

variable {candidates candidates' : List (Address × Name)}

theorem number_inj {a b : Address} (h : a.number = b.number) : a = b := by
  have hread : ∀ a : Address, Ipv4.parse a.text = some a.number := fun a =>
    (Option.some_get a.isIpv4).symm
  exact Address.eq_of_text (Ipv4.parse_inj (hread a) (h ▸ hread b))

/-- The order of the addresses of a name is that of their numbers. -/
theorem orderedFor_of_perm (h : candidates'.Perm candidates) (name : Name) :
    orderedFor candidates' name = orderedFor candidates name := by
  have hsorted : ∀ l : List Address,
      (l.mergeSort fun a b => a.number ≤ b.number).Pairwise fun a b => a.number ≤ b.number := fun l =>
    (@List.pairwise_mergeSort Address (fun a b => decide (a.number ≤ b.number))
      (fun a b c hab hbc => by simp only [decide_eq_true_eq] at *; omega)
      (fun a b => by simp only [Bool.or_eq_true, decide_eq_true_eq]; omega) l).imp fun hab =>
        of_decide_eq_true hab
  have hperm : (orderedFor candidates' name).Perm (orderedFor candidates name) :=
    (orderedFor_perm _ _).trans (((((h.filter _).map _).dedup)).trans (orderedFor_perm _ _).symm)
  exact hperm.eq_of_pairwise (fun a b _ _ hab hba => number_inj (by omega)) (hsorted _) (hsorted _)

theorem finalName_of_perm (h : candidates'.Perm candidates) (x : Address × Name) :
    finalName candidates' x = finalName candidates x := by
  unfold finalName
  rw [suffixFor_eq, suffixFor_eq, ← length_orderedFor, ← length_orderedFor, orderedFor_of_perm h]

end Order

/-! ## The desired names -/

/-- Every address whose hostname is a label has one name, and no two addresses have one name, in whatever order
the mapping comes. -/
structure NamesKept (rawDesired : Map Address (String × Source)) : Prop where
  /-- An address whose hostname is a label has one name. -/
  one : ∀ ip hostname source name, rawDesired.get ip = some (hostname, source) →
    normalizeName hostname = .ok name → ∃! n, ∃ s, (normalizeDesired rawDesired).1.get n = some (ip, s)
  /-- No two addresses have one name. -/
  distinct : ((dedupeNames (normalizedNames rawDesired)).map Prod.snd).Nodup
  /-- There are as many names as such addresses. -/
  count : (normalizeDesired rawDesired).1.entries.length = (normalizedNames rawDesired).length
  /-- In another order of the mapping, each name has the same address and source, and the same is skipped. -/
  order : ∀ rawDesired' : Map Address (String × Source), rawDesired'.entries.Perm rawDesired.entries →
    (∀ n, (normalizeDesired rawDesired').1.get n = (normalizeDesired rawDesired).1.get n) ∧
      (normalizeDesired rawDesired').2.Perm (normalizeDesired rawDesired).2

section Desired

variable {rawDesired rawDesired' : Map Address (String × Source)} {x : Address × Name}

theorem mem_normalizedNames :
    x ∈ normalizedNames rawDesired ↔
      ∃ hostname source, rawDesired.get x.1 = some (hostname, source) ∧ normalizeName hostname = .ok x.2 := by
  obtain ⟨ip, name⟩ := x
  unfold normalizedNames
  rw [List.mem_filterMap]
  constructor
  · rintro ⟨⟨ip', hostname, source⟩, hmem, h⟩
    dsimp only at h
    split at h
    · next name' hname =>
      obtain ⟨rfl, rfl⟩ := Prod.mk.inj (Option.some.inj h)
      exact ⟨hostname, source, Map.mem_entries.mp hmem, hname⟩
    · cases h
  · rintro ⟨hostname, source, hget, hname⟩
    refine ⟨(ip, hostname, source), Map.mem_entries.mpr hget, ?_⟩
    dsimp only at hname ⊢
    rw [hname]

/-- An address stands once among the candidates. -/
theorem eq_of_fst_eq {y : Address × Name} (hx : x ∈ normalizedNames rawDesired)
    (hy : y ∈ normalizedNames rawDesired) (h : x.1 = y.1) : x = y := by
  obtain ⟨hostname, source, hget, hname⟩ := mem_normalizedNames.mp hx
  obtain ⟨hostname', source', hget', hname'⟩ := mem_normalizedNames.mp hy
  rw [h, hget'] at hget
  obtain ⟨rfl, rfl⟩ := Prod.mk.inj (Option.some.inj hget)
  exact Prod.ext h (Except.ok.inj (hname.symm.trans hname'))

theorem nodup_normalizedNames (rawDesired : Map Address (String × Source)) : (normalizedNames rawDesired).Nodup := by
  have hsublist : ∀ l : List (Address × String × Source), ((l.filterMap fun x =>
      match normalizeName x.2.1 with
      | .ok name => some (x.1, name)
      | .error _ => none).map Prod.fst).Sublist (l.map Prod.fst) := by
    intro l
    induction l with
    | nil => exact List.Sublist.slnil
    | cons x l ih =>
      rw [List.filterMap_cons]
      split
      · exact ih.cons _
      · next y hy =>
        split at hy
        · obtain rfl := Option.some.inj hy
          exact ih.cons_cons _
        · cases hy
  exact (rawDesired.nodup.sublist (hsublist _)).of_map

/-- The source of an address. -/
def sourceAt (rawDesired : Map Address (String × Source)) (ip : Address) : Source :=
  ((rawDesired.get ip).map Prod.snd).getD .lease

/-- The desired names, before they are a mapping. -/
def desiredList (rawDesired : Map Address (String × Source)) : List (Name × Address × Source) :=
  (normalizedNames rawDesired).map fun x => (finalName (normalizedNames rawDesired) x, x.1, sourceAt rawDesired x.1)

theorem normalizeDesired_fst : (normalizeDesired rawDesired).1 = Map.ofList (desiredList rawDesired) := by
  have hlist : ((dedupeNames (normalizedNames rawDesired)).map fun x => (x.2, x.1, sourceAt rawDesired x.1)) =
      desiredList rawDesired := by
    unfold dedupeNames desiredList finalName
    rw [List.map_map]
    rfl
  have hcongr : ∀ l, l = normalizedNames rawDesired →
      Map.ofList ((dedupeNames l).map fun x => (x.2, x.1, sourceAt rawDesired x.1)) =
        Map.ofList ((dedupeNames (normalizedNames rawDesired)).map fun x => (x.2, x.1, sourceAt rawDesired x.1)) :=
    fun l hl => by rw [hl]
  rw [← hlist]
  unfold normalizeDesired
  refine hcongr _ (List.filterMap_congr fun x _ => ?_)
  cases normalizeName x.2.1 <;> rfl

theorem keys_desiredList :
    (desiredList rawDesired).map Prod.fst = (dedupeNames (normalizedNames rawDesired)).map Prod.snd := by
  unfold desiredList dedupeNames finalName
  rw [List.map_map, List.map_map]
  rfl

/-- In another order, the desired names are the same. -/
theorem desiredList_perm (h : rawDesired'.entries.Perm rawDesired.entries) :
    (desiredList rawDesired').Perm (desiredList rawDesired) := by
  have hcandidates : (normalizedNames rawDesired').Perm (normalizedNames rawDesired) := h.filterMap _
  have hget : ∀ ip, rawDesired'.get ip = rawDesired.get ip := fun ip => Option.ext fun v =>
    Map.mem_entries.symm.trans (h.mem_iff.trans Map.mem_entries)
  have hsame : (desiredList rawDesired') = (normalizedNames rawDesired').map fun x =>
      (finalName (normalizedNames rawDesired) x, x.1, sourceAt rawDesired x.1) := by
    refine List.map_congr_left fun x _ => ?_
    unfold sourceAt
    rw [finalName_of_perm hcandidates, hget]
  rw [hsame]
  exact hcandidates.map _

/-- Every name is kept just where no suffix that is given makes a name that is an address's own. -/
theorem namesKept_iff (rawDesired : Map Address (String × Source)) :
    NamesKept rawDesired ↔ NoClash (normalizedNames rawDesired) := by
  have hnodup := nodup_normalizedNames rawDesired
  refine ⟨fun h => (nodup_dedupeNames_iff hnodup).mp h.distinct, fun h => ?_⟩
  have hdistinct := (nodup_dedupeNames_iff hnodup).mpr h
  have hkeys : ((desiredList rawDesired).map Prod.fst).Nodup := keys_desiredList ▸ hdistinct
  have hread : ∀ n v, (normalizeDesired rawDesired).1.get n = some v ↔ (n, v) ∈ desiredList rawDesired := by
    intro n v
    rw [normalizeDesired_fst]
    exact Map.get_ofList hkeys
  refine ⟨fun ip hostname source name hget hname => ?_, hdistinct, ?_, fun rawDesired' hperm => ⟨fun n => ?_, ?_⟩⟩
  · have hmem : (ip, name) ∈ normalizedNames rawDesired := mem_normalizedNames.mpr ⟨hostname, source, hget, hname⟩
    refine ⟨finalName (normalizedNames rawDesired) (ip, name), ⟨sourceAt rawDesired ip, ?_⟩, ?_⟩
    · exact (hread _ _).mpr (List.mem_map_of_mem hmem)
    · rintro n ⟨s, hs⟩
      obtain ⟨y, hy, heq⟩ := List.mem_map.mp ((hread _ _).mp hs)
      obtain ⟨rfl, hip, -⟩ := Prod.mk.inj heq |>.imp id Prod.mk.inj
      rw [eq_of_fst_eq hy hmem hip]
  · have hentries : (Map.ofList (desiredList rawDesired)).entries = [] ++ desiredList rawDesired :=
      Map.entries_putAll hkeys fun _ _ => List.not_mem_nil
    rw [normalizeDesired_fst, hentries, List.nil_append, desiredList, List.length_map]
  · have hlist := desiredList_perm hperm
    refine Option.ext fun v => ?_
    rw [hread, normalizeDesired_fst]
    exact (Map.get_ofList ((hlist.map Prod.fst).nodup_iff.mpr hkeys)).trans hlist.mem_iff
  · exact hperm.filterMap _

end Desired

/-- Two televisions, and an address that is called `tv-2` itself. -/
def televisions : Map Address (String × Source) where
  entries :=
    [(⟨"10.0.0.1", by decide⟩, "tv", .lease), (⟨"10.0.0.2", by decide⟩, "tv", .lease),
      (⟨"10.0.0.3", by decide⟩, "tv-2", .lease)]
  nodup := by decide

/-- The second television takes the name of the third address. -/
theorem televisions_clash : ¬ NamesKept televisions := by
  intro h
  have hclash := (nodup_dedupeNames_iff (nodup_normalizedNames televisions)).mp h.distinct
  refine hclash ⟨"tv", by decide⟩ 2 le_rfl (by decide)
    (⟨"10.0.0.3", by decide⟩, ⟨"tv-2", by decide⟩) (by decide) ?_
  exact Name.eq_of_text (by decide)

end JenKea.Dns
