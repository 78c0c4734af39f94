import JenKea.SubnetMap.Survives

/-!
# The map survives its own file

A write of the map and a read of the file: the subnets of the map are read as they were given, where the section can
hold them; a line that was not read is repaired or kept, where it has a name and a prefix; and the rest of the file is
as it was.
-/

namespace JenKea.SubnetMap

open Text

variable {isNetwork : String → Bool} {f : Family} {p : Ini} {sid : ℤ} {entry : Entry}
  {key raw cidr : String} {names : List String} {stored m : Map ℤ Entry}

/-- The file after a write of the map; nothing where the write raises. -/
def writeFile (isNetwork : String → Bool) (f : Family) (m : Map ℤ Entry) (text : String) : Option String := do
  let p ← Ini.read text
  let p' ← (writeSubnets isNetwork f m p).toOption
  return Ini.write p'

/-- The line of an id that a write repairs where it was not read: the first that has two parts. -/
def lineOf (f : Family) (p : Ini) (sid : ℤ) : Option String :=
  ((rawSection f p).entries.find? fun x => toInt x.1 = some sid ∧ 2 ≤ (parts x.2).length).map Prod.snd

/-- A subnet that the section can hold: its name passes the check and has no white space around it, its prefix is a
network that a file gives back as one part, and its numbers can be written. -/
structure Fits (isNetwork : String → Bool) (f : Family) (sid : ℤ) (entry : Entry) : Prop where
  valid : invalidSubnetNameReason entry.name = none
  trimmed : strip entry.name = entry.name
  network : isNetwork entry.cidr = true
  cidr : Holds entry.cidr
  id : (strOf sid).isSome
  paired : ∀ n, entry.pairedSubnet4Id = some n → f = .v6 ∧ (strOf n).isSome

/-- What of the map and of the section is read of the file again. -/
structure Survived (isNetwork : String → Bool) (f : Family) (p : Ini) (m : Map ℤ Entry) (q : Ini) : Prop where
  entries : ∀ sid entry, m.get sid = some entry → (deriveSubnetMap isNetwork f q).get sid = some entry
  others : ∀ sid entry, (deriveSubnetMap isNetwork f q).get sid = some entry → m.get sid = none →
    (deriveSubnetMap isNetwork f p).get sid = none ∧ (lineOf f p sid).isSome
  repaired : ∀ sid raw names cidr, m.get sid = none → (deriveSubnetMap isNetwork f p).get sid = none →
    lineOf f p sid = some raw → parts raw = names ++ [cidr] →
      (f = .v4 ∨ names.length = 1 ∨ isNetwork cidr = true) →
        (∃ options, q.sections.get f.sectionName = some options ∧
          options.get (toString sid) = some (Ini.trimValue (commaJoin [withoutCommas (commaJoin names), cidr]))) ∧
        (isNetwork cidr = true → (deriveSubnetMap isNetwork f q).get sid =
          some ⟨strip (Ini.trimValue (withoutCommas (commaJoin names))), cidr, none⟩)
  rest : q.defaults = p.defaults ∧ ∀ s, s ≠ f.sectionName → q.sections.get s = p.sections.get s

/-! ## A name that passes the check -/

theorem holds_of_valid {name : String} (h : invalidSubnetNameReason name = none) (htrimmed : strip name = name) :
    Holds name := by
  unfold invalidSubnetNameReason at h
  split_ifs at h with hempty hlong hforbidden hcontrol
  have hcontrols : ∀ c ∈ name.toList, ¬ (c.toNat < 0x20 ∨ c.toNat = 0x7f) := by
    intro c hc hbad
    exact hcontrol (List.any_eq_true.mpr ⟨c, hc, by simpa using hbad⟩)
  have hcomma : ',' ∉ name.toList := by
    intro hmem
    exact hforbidden (List.any_eq_true.mpr ⟨',', by decide, by simpa using hmem⟩)
  refine ⟨⟨hempty, htrimmed, hcomma⟩, Ini.regularValue_of_oneLine ⟨?_, ?_⟩ ?_⟩
  · exact fun hmem => hcontrols _ hmem (by decide)
  · exact fun hmem => hcontrols _ hmem (by decide)
  · have hstrip : Ini.strip name.toList = name.toList := by
      have hlist := congrArg String.toList htrimmed
      rwa [strip, String.toList_ofList] at hlist
    exact hstrip ▸ Ini.trimmed_strip name.toList

/-! ## A line that is repaired -/

theorem exists_of_repaired (h : repaired raw = some entry) : ∃ names cidr,
    names ≠ [] ∧ parts raw = names ++ [cidr] ∧ entry = ⟨withoutCommas (commaJoin names), cidr, none⟩ := by
  unfold repaired at h
  split at h
  · next cidr n names heq =>
    refine ⟨(n :: names).reverse, cidr, by simp, ?_, (Option.some.inj h).symm⟩
    rw [← List.reverse_inj, heq]
    simp
  · cases h

theorem repaired_of_parts (hnames : names ≠ []) (h : parts raw = names ++ [cidr]) :
    repaired raw = some ⟨withoutCommas (commaJoin names), cidr, none⟩ := by
  obtain ⟨init, n, rfl⟩ : ∃ init n, names = init ++ [n] := ⟨_, _, (List.dropLast_append_getLast hnames).symm⟩
  unfold repaired
  rw [h]
  simp

theorem repaired_isSome : (repaired raw).isSome = true ↔ 2 ≤ (parts raw).length := by
  constructor
  · intro h
    obtain ⟨entry, hentry⟩ := Option.isSome_iff_exists.mp h
    obtain ⟨names, cidr, hnames, hparts, _⟩ := exists_of_repaired hentry
    have hlength := List.length_pos_iff.mpr hnames
    rw [hparts, List.length_append, List.length_singleton]
    omega
  · intro h
    have hne : parts raw ≠ [] := List.ne_nil_of_length_pos (by omega)
    have hsplit := List.dropLast_append_getLast hne
    have hnames : (parts raw).dropLast ≠ [] := by
      refine List.ne_nil_of_length_pos ?_
      rw [List.length_dropLast]
      omega
    rw [repaired_of_parts hnames hsplit.symm]
    rfl

theorem get_reconciled :
    ((rawSection f p).entries.foldl (repairStep stored) m).get sid =
      (m.get sid).or (if (stored.get sid).isNone then (lineOf f p sid).bind repaired else none) := by
  have hsame : (fun x : String × String => decide (toInt x.1 = some sid ∧ (repaired x.2).isSome = true)) =
      fun x => decide (toInt x.1 = some sid ∧ 2 ≤ (parts x.2).length) :=
    funext fun x => decide_eq_decide.mpr (and_congr_right fun _ => repaired_isSome)
  rw [get_foldl_repairStep, hsame, lineOf, Option.bind_map]
  rfl

theorem of_lineOf (h : lineOf f p sid = some raw) :
    ∃ key, (rawSection f p).get key = some raw ∧ toInt key = some sid ∧ 2 ≤ (parts raw).length := by
  obtain ⟨⟨key, raw'⟩, hfind, rfl⟩ := Option.map_eq_some_iff.mp h
  have hmem := List.mem_of_find?_eq_some hfind
  have hprop := List.find?_some hfind
  obtain ⟨hint, hlength⟩ := of_decide_eq_true hprop
  exact ⟨key, Map.mem_entries.mp hmem, hint, hlength⟩

theorem regular_of_rawSection {text : String} (hread : Ini.read text = some p)
    (h : (rawSection f p).get key = some raw) : Ini.RegularValue raw.toList := by
  have hregular := Ini.regular_of_read hread
  cases hsection : p.sections.get f.sectionName with
  | none =>
    rw [rawSection, hsection] at h
    cases h
  | some options =>
    rw [get_rawSection hsection] at h
    cases hoption : options.get key with
    | none =>
      rw [hoption] at h
      exact (hregular.defaults _ (Map.mem_entries.mpr h)).regular
    | some raw' =>
      rw [hoption] at h
      obtain rfl := Option.some.inj h
      exact ((hregular.sections _ (Map.mem_entries.mpr hsection)).regular _ (Map.mem_entries.mpr hoption)).regular

theorem writable_of_repaired {text : String} (hread : Ini.read text = some p) (hline : lineOf f p sid = some raw)
    (h : repaired raw = some entry) : Writable sid entry := by
  obtain ⟨key, hget, hint, _⟩ := of_lineOf hline
  obtain ⟨names, cidr, _, hparts, rfl⟩ := exists_of_repaired h
  have hpart : ∀ part ∈ names ++ [cidr], Part part := fun part hmem =>
    part_of_mem (regular_of_rawSection hread hget) (hparts ▸ hmem)
  refine ⟨?_, nofun, ?_, ?_⟩
  · rw [strOf_of_toInt hint]
    rfl
  · exact quiet_withoutCommas names fun part hmem => hpart part (List.mem_append_left _ hmem)
  · exact (hpart cidr (by simp)).quiet

theorem Fits.writable (h : Fits isNetwork f sid entry) : Writable sid entry :=
  ⟨h.id, fun n hn => (h.paired n hn).2, (holds_of_valid h.valid h.trimmed).quiet, h.cidr.quiet⟩

/-- A subnet that fits is read of its line. -/
theorem Fits.entryOf_line (h : Fits isNetwork f sid entry) {line : String}
    (hoption : option f (sid, entry) = .ok (key, line)) : entryOf isNetwork f (Ini.trimValue line) = some entry := by
  have hname := holds_of_valid h.valid h.trimmed
  obtain ⟨_, ⟨hnone, rfl⟩ | ⟨rfl, n, paired, hpaired, hn, rfl⟩⟩ := option_eq_ok.mp hoption
  · have hparts := parts_of_holds entry.name [entry.cidr] (by
      intro next hnext
      simp only [List.mem_cons, List.not_mem_nil, or_false] at hnext
      rcases hnext with rfl | rfl
      · exact hname
      · exact h.cidr)
    have hunpaired : entry.pairedSubnet4Id = none := by
      rcases hnone with rfl | hnone
      · cases hpaired : entry.pairedSubnet4Id with
        | none => rfl
        | some n => exact nomatch (h.paired n hpaired).1
      · exact hnone
    unfold entryOf
    rw [hparts]
    dsimp only
    rw [if_pos h.network, ← hunpaired]
  · have hnumber := holds_toString n
    obtain rfl := eq_toString_of_strOf hn
    have hparts := parts_of_holds entry.name [entry.cidr, toString n] (by
      intro next hnext
      simp only [List.mem_cons, List.not_mem_nil, or_false] at hnext
      rcases hnext with rfl | rfl | rfl
      · exact hname
      · exact h.cidr
      · exact hnumber)
    unfold entryOf
    rw [hparts]
    dsimp only
    rw [if_pos h.network, if_neg hnumber.isItem.notEmpty, toInt_of_strOf hn, Option.map_some, ← hpaired]

/-- The line of a repaired subnet, as it is read. -/
theorem parts_repaired {text : String} (hread : Ini.read text = some p) (hline : lineOf f p sid = some raw)
    (hparts : parts raw = names ++ [cidr]) :
    parts (Ini.trimValue (commaJoin [withoutCommas (commaJoin names), cidr])) =
      [strip (Ini.trimValue (withoutCommas (commaJoin names))), cidr] := by
  obtain ⟨key, hget, _, _⟩ := of_lineOf hline
  have hcidr : Part cidr := part_of_mem (regular_of_rawSection hread hget) (by rw [hparts]; simp)
  rw [parts_trimValue_commaJoin, List.map_cons, List.map_singleton, hcidr.givenBack]
  intro next hnext
  simp only [List.mem_cons, List.not_mem_nil, or_false] at hnext
  rcases hnext with rfl | rfl
  · exact comma_notMem_withoutCommas _
  · exact hcidr.noComma

/-- Every subnet of the map is written as it is. -/
theorem reconcile_eq_ok (stored : Map ℤ Entry) (raws : Map String String)
    (h : ∀ sid entry, m.get sid = some entry → invalidSubnetNameReason entry.name = none) :
    reconcileSubnetNames m stored raws = .ok (raws.entries.foldl (repairStep stored) m) := by
  have hcheck : ∀ x ∈ m.entries, ∃ y, checkName stored x = .ok y := by
    intro x hx
    refine ⟨(), ?_⟩
    unfold checkName
    rw [h x.1 x.2 (Map.mem_entries.mp hx)]
    exact ite_self _
  obtain ⟨checks, hchecks⟩ := Except.exists_mapM_ok hcheck
  unfold reconcileSubnetNames
  rw [hchecks]
  rfl

/-- The map survives its own file: its subnets are read again, other lines of the section are repaired or kept, and the
rest of the file is as it was. -/
theorem survives {text : String} (hread : Ini.read text = some p)
    (hdefaults : ∀ key raw, p.defaults.get key = some raw → toInt key = none)
    (hm : ∀ sid entry, m.get sid = some entry → Fits isNetwork f sid entry) : ∃ text' q,
      writeFile isNetwork f m text = some text' ∧ Ini.read text' = some q ∧ Survived isNetwork f p m q := by
  set stored := deriveSubnetMap isNetwork f p with hstored
  set reconciled := (rawSection f p).entries.foldl (repairStep stored) m with hreconciled
  have hget : ∀ sid, reconciled.get sid =
      (m.get sid).or (if (stored.get sid).isNone then (lineOf f p sid).bind repaired else none) :=
    fun sid => get_reconciled
  -- every subnet that is written fits, or was repaired
  have hcases : ∀ sid entry, reconciled.get sid = some entry → m.get sid = some entry ∨
      (m.get sid = none ∧ stored.get sid = none ∧ ∃ raw, lineOf f p sid = some raw ∧ repaired raw = some entry) := by
    intro sid entry hentry
    rw [hget] at hentry
    cases hmsid : m.get sid with
    | some entry' =>
      rw [hmsid] at hentry
      exact .inl hentry
    | none =>
      rw [hmsid, Option.none_or] at hentry
      split_ifs at hentry with hnone
      obtain ⟨raw, hraw, hrepaired⟩ := Option.bind_eq_some_iff.mp hentry
      exact .inr ⟨rfl, Option.isNone_iff_eq_none.mp hnone, raw, hraw, hrepaired⟩
  have hwritable : ∀ sid entry, reconciled.get sid = some entry → Writable sid entry := by
    intro sid entry hentry
    rcases hcases sid entry hentry with hmsid | ⟨_, _, raw, hraw, hrepaired⟩
    · exact (hm sid entry hmsid).writable
    · exact writable_of_repaired hread hraw hrepaired
  obtain ⟨l, q, hl, hq, hqdefaults, hothers, hnone, hsome⟩ :=
    exists_read_write isNetwork f hread hdefaults hwritable
  have hwrite : writeSubnets isNetwork f m p = .ok (withSection f (.ofList l) p) := by
    have hreconcile := reconcile_eq_ok stored (rawSection f p)
      fun sid entry hentry => (hm sid entry hentry).valid
    unfold writeSubnets
    dsimp only
    rw [← hstored, hreconcile]
    show (reconciled.entries.mapM (option f) >>= _) = _
    rw [hl]
    rfl
  have hfile : writeFile isNetwork f m text = some (Ini.write (withSection f (.ofList l) p)) := by
    unfold writeFile
    rw [hread, Option.bind_eq_bind, Option.bind_some, hwrite]
    rfl
  refine ⟨_, q, hfile, hq, ?_, ?_, ?_, hqdefaults, hothers⟩
  · intro sid entry hentry
    have hreconciledSid : reconciled.get sid = some entry := by
      rw [hget, hentry]
      rfl
    obtain ⟨key, line, options, hoption, _, _, hderive⟩ := hsome sid entry hreconciledSid
    rw [hderive]
    exact (hm sid entry hentry).entryOf_line hoption
  · intro sid entry hderive hmsid
    cases hentry : reconciled.get sid with
    | none =>
      rw [hnone sid hentry] at hderive
      cases hderive
    | some entry' =>
      rcases hcases sid entry' hentry with h | ⟨_, hstoredSid, raw, hraw, _⟩
      · rw [hmsid] at h
        cases h
      · exact ⟨hstoredSid, by rw [hraw]; rfl⟩
  · intro sid raw names cidr hmsid hstoredSid hline hparts _
    obtain ⟨key', hget', hint, hlength⟩ := of_lineOf hline
    have hnames : names ≠ [] := by
      rintro rfl
      rw [hparts, List.nil_append, List.length_singleton] at hlength
      omega
    have hreconciledSid : reconciled.get sid = some ⟨withoutCommas (commaJoin names), cidr, none⟩ := by
      rw [hget, hmsid, hstoredSid, hline]
      exact repaired_of_parts hnames hparts
    obtain ⟨key, line, options, hoption, hsection, hkept, hderive⟩ := hsome sid _ hreconciledSid
    obtain ⟨hkey, hshape⟩ := option_eq_ok.mp hoption
    have hlineEq : line = commaJoin [withoutCommas (commaJoin names), cidr] := by
      rcases hshape with ⟨_, h⟩ | ⟨_, n, paired, hpaired, _⟩
      · exact h
      · cases hpaired
    subst hlineEq
    refine ⟨⟨options, hsection, by rw [← eq_toString_of_strOf hkey]; exact hkept⟩, fun hnetwork => ?_⟩
    rw [hderive]
    unfold entryOf
    rw [parts_repaired hread hline hparts]
    exact if_pos hnetwork

/-- Some networks. -/
def networks (text : String) : Bool :=
  text = "10.0.0.0/24" || text = "2001:db8::/64" || text = "fe80::%a,b/64"

theorem survives_attic : ∃ text' q,
    writeFile networks .v6 (.ofList [(8, ⟨"Lan", "2001:db8::/64", some 3⟩)])
        "[subnets6]\n7 = Attic, top, 2001:db8::/64\n" = some text' ∧
      Ini.read text' = some q ∧
        Survived networks .v6 ⟨.empty, .ofList [("subnets6", .ofList [("7", "Attic, top, 2001:db8::/64")])]⟩
          (.ofList [(8, ⟨"Lan", "2001:db8::/64", some 3⟩)]) q := by
  refine survives (by decide +kernel) (fun _ _ h => nomatch h) fun sid entry h => ?_
  have hmem := List.mem_singleton.mp (Overwritten.mem_of_get_ofList h)
  obtain ⟨rfl, rfl⟩ := Prod.mk.inj hmem
  refine ⟨by decide, by decide, by decide, ⟨⟨by decide, by decide, by decide⟩, by decide⟩,
    by decide, fun n hn => ?_⟩
  obtain rfl := Option.some.inj hn
  exact ⟨rfl, by decide⟩

/-! ## What does not survive -/

/-- The subnet of a line that was not read for a comma in its name. -/
def HasComma (isNetwork : String → Bool) (f : Family) (raw cidr : String) (paired : Option ℤ) : Prop :=
  entryOf isNetwork f raw = none ∧ isNetwork cidr = true ∧ ∃ names, 2 ≤ names.length ∧
    ((parts raw = names ++ [cidr] ∧ paired = none) ∨
      f = .v6 ∧ ∃ text n, parts raw = names ++ [cidr, text] ∧ toInt text = some n ∧ paired = some n)

/-- Exactly the map, the subnets with a comma in their name repaired, and every other line as it was. -/
structure Exact (isNetwork : String → Bool) (f : Family) (p : Ini) (m : Map ℤ Entry) (q : Ini) : Prop where
  entries : ∀ sid entry, m.get sid = some entry → (deriveSubnetMap isNetwork f q).get sid = some entry
  others : ∀ sid entry, (deriveSubnetMap isNetwork f q).get sid = some entry → m.get sid = none →
    (deriveSubnetMap isNetwork f p).get sid = none
  commas : ∀ sid key raw cidr paired, (rawSection f p).get key = some raw → toInt key = some sid →
    m.get sid = none → HasComma isNetwork f raw cidr paired →
      ∃ name, (deriveSubnetMap isNetwork f q).get sid = some ⟨name, cidr, paired⟩
  kept : ∀ key raw options, p.sections.get f.sectionName = some options → options.get key = some raw →
    (∀ sid, toInt key = some sid → m.get sid = none ∧ (deriveSubnetMap isNetwork f p).get sid = none) →
      (∀ cidr paired, ¬ HasComma isNetwork f raw cidr paired) →
        (q.sections.get f.sectionName).bind (fun options' => options'.get key) = some raw

/-- The map survives the write as it is. -/
def Survives (isNetwork : String → Bool) (f : Family) (m : Map ℤ Entry) (text : String) : Prop :=
  ∀ p, Ini.read text = some p → ∃ text' q,
    writeFile isNetwork f m text = some text' ∧ Ini.read text' = some q ∧ Exact isNetwork f p m q

theorem not_survives {text : String} (p : Ini) (text' : String) (q : Ini) (hread : Ini.read text = some p)
    (hwrite : writeFile isNetwork f m text = some text') (hq : Ini.read text' = some q)
    (h : ¬ Exact isNetwork f p m q) : ¬ Survives isNetwork f m text := by
  intro hsurvives
  obtain ⟨text'', q', hwrite', hq', hexact⟩ := hsurvives p hread
  obtain rfl := Option.some.inj (hwrite.symm.trans hwrite')
  obtain rfl := Option.some.inj (hq.symm.trans hq')
  exact h hexact

/-- A subnet whose id cannot be written is not. -/
theorem writeFile_eq_none {text : String} (hid : strOf sid = none) (hm : m.get sid = some entry) :
    writeFile isNetwork f m text = none := by
  have hraise : ∀ p p', writeSubnets isNetwork f m p ≠ .ok p' := by
    intro p p' hwrite
    obtain ⟨reconciled, hreconciled, hwrite⟩ := Except.bind_eq_ok.mp hwrite
    obtain ⟨l, hl, _⟩ := Except.bind_eq_ok.mp hwrite
    obtain ⟨_, _, hreconciled⟩ := Except.bind_eq_ok.mp hreconciled
    obtain rfl := Except.ok.inj hreconciled
    have hget : ((rawSection f p).entries.foldl (repairStep (deriveSubnetMap isNetwork f p)) m).get sid =
        some entry := by
      rw [get_reconciled, hm]
      rfl
    have hoption : ∃ e, option f (sid, entry) = .error e := by
      unfold option intText
      rw [hid]
      exact ⟨_, rfl⟩
    obtain ⟨e, he⟩ := hoption
    obtain ⟨e', he'⟩ := Except.exists_mapM_error (Map.mem_entries.mpr hget) he
    rw [he'] at hl
    cases hl
  unfold writeFile
  cases Ini.read text with
  | none => rfl
  | some p =>
    cases hwrite : writeSubnets isNetwork f m p with
    | error e =>
      show ((writeSubnets isNetwork f m p).toOption >>= _) = none
      rw [hwrite]
      rfl
    | ok p' => exact absurd hwrite (hraise p p')

/-- A map of one subnet. -/
def single (sid : ℤ) (name cidr : String) : Map ℤ Entry := .ofList [(sid, ⟨name, cidr, none⟩)]

theorem get_single (sid : ℤ) (name cidr : String) : (single sid name cidr).get sid = some ⟨name, cidr, none⟩ :=
  Map.get_put.trans (if_pos rfl)

theorem not_hasComma {paired : Option ℤ} (h : (parts raw).length ≤ 2) : ¬ HasComma isNetwork f raw cidr paired := by
  rintro ⟨_, _, names, hnames, ⟨hparts, _⟩ | ⟨_, text, n, hparts, _⟩⟩
  · rw [hparts, List.length_append, List.length_singleton] at h
    omega
  · rw [hparts, List.length_append, List.length_cons, List.length_singleton] at h
    omega

/-- What does not survive: a line under no number; a line whose spaces are not those of the writer; the second line of
an id; a subnet of the defaults that the map drops; white space around a name; a comma in a prefix; an id with too many
digits; and the pairing of a name with a comma. -/
theorem lost :
    ¬ Survives networks .v4 .empty "[subnets]\nattic = 7\n" ∧
      ¬ Survives networks .v4 .empty "[subnets]\n7 = Attic,top\n" ∧
      ¬ Survives networks .v4 .empty "[subnets]\n7 = Attic, top\n07 = Lan, top\n" ∧
      ¬ Survives networks .v4 .empty "[DEFAULT]\n9 = Lan, 10.0.0.0/24\n[subnets]\n" ∧
      (invalidSubnetNameReason " Lan" = none ∧
        ¬ Survives networks .v4 (single 7 " Lan" "10.0.0.0/24") "[subnets]\n") ∧
      (invalidSubnetNameReason "Lan" = none ∧
        ¬ Survives networks .v6 (single 7 "Lan" "fe80::%a,b/64") "[subnets6]\n" ∧
        ¬ Survives networks .v4 (single (10 ^ digitLimit) "Lan" "10.0.0.0/24") "[subnets]\n") ∧
      ¬ Survives networks .v6 .empty "[subnets6]\n7 = Attic, top, 2001:db8::/64, 5\n" := by
  refine ⟨?_, ?_, ?_, ?_, ⟨by decide, ?_⟩, ⟨by decide, ?_, ?_⟩, ?_⟩
  · refine not_survives ⟨.empty, .ofList [("subnets", .ofList [("attic", "7")])]⟩ "[subnets]\n\n"
      ⟨.empty, .ofList [("subnets", .empty)]⟩ (by decide +kernel) (by decide +kernel) (by decide +kernel) ?_
    intro h
    have hunread : toInt "attic" = none := by decide
    have hkept := h.kept "attic" "7" (.ofList [("attic", "7")]) (by decide) (by decide)
      (fun sid hsid => absurd (hunread.symm.trans hsid) nofun) fun _ _ => not_hasComma (by decide)
    exact absurd hkept (by decide)
  · refine not_survives ⟨.empty, .ofList [("subnets", .ofList [("7", "Attic,top")])]⟩
      "[subnets]\n7 = Attic, top\n\n" ⟨.empty, .ofList [("subnets", .ofList [("7", "Attic, top")])]⟩
      (by decide +kernel) (by decide +kernel) (by decide +kernel) ?_
    intro h
    have hseven : toInt "7" = some 7 := by decide
    have hkept := h.kept "7" "Attic,top" (.ofList [("7", "Attic,top")]) (by decide) (by decide)
      (fun sid hsid => Option.some.inj (hseven.symm.trans hsid) ▸ by decide)
      fun _ _ => not_hasComma (by decide)
    exact absurd hkept (by decide)
  · refine not_survives ⟨.empty, .ofList [("subnets", .ofList [("7", "Attic, top"), ("07", "Lan, top")])]⟩
      "[subnets]\n7 = Attic, top\n\n" ⟨.empty, .ofList [("subnets", .ofList [("7", "Attic, top")])]⟩
      (by decide +kernel) (by decide +kernel) (by decide +kernel) ?_
    intro h
    have hseven : toInt "07" = some 7 := by decide
    have hkept := h.kept "07" "Lan, top" (.ofList [("7", "Attic, top"), ("07", "Lan, top")]) (by decide)
      (by decide) (fun sid hsid => Option.some.inj (hseven.symm.trans hsid) ▸ by decide)
      fun _ _ => not_hasComma (by decide)
    exact absurd hkept (by decide)
  · refine not_survives ⟨.ofList [("9", "Lan, 10.0.0.0/24")], .ofList [("subnets", .empty)]⟩
      "[DEFAULT]\n9 = Lan, 10.0.0.0/24\n\n[subnets]\n\n"
      ⟨.ofList [("9", "Lan, 10.0.0.0/24")], .ofList [("subnets", .empty)]⟩
      (by decide +kernel) (by decide +kernel) (by decide +kernel) ?_
    intro h
    have hothers := h.others 9 ⟨"Lan", "10.0.0.0/24", none⟩ (by decide) (by decide)
    exact absurd hothers (by decide)
  · refine not_survives ⟨.empty, .ofList [("subnets", .empty)]⟩ "[subnets]\n7 =  Lan, 10.0.0.0/24\n\n"
      ⟨.empty, .ofList [("subnets", .ofList [("7", "Lan, 10.0.0.0/24")])]⟩
      (by decide +kernel) (by decide +kernel) (by decide +kernel) ?_
    intro h
    have hentry := h.entries 7 ⟨" Lan", "10.0.0.0/24", none⟩ (by decide)
    exact absurd hentry (by decide)
  · refine not_survives ⟨.empty, .ofList [("subnets6", .empty)]⟩
      "[subnets6]\n7 = Lan, fe80::%a,b/64\n\n"
      ⟨.empty, .ofList [("subnets6", .ofList [("7", "Lan, fe80::%a,b/64")])]⟩
      (by decide +kernel) (by decide +kernel) (by decide +kernel) ?_
    intro h
    have hentry := h.entries 7 ⟨"Lan", "fe80::%a,b/64", none⟩ (by decide)
    exact absurd hentry (by decide)
  · intro h
    have hread : Ini.read "[subnets]\n" = some ⟨.empty, .ofList [("subnets", .empty)]⟩ := by decide
    obtain ⟨text', q, hwrite, _⟩ := h _ hread
    rw [writeFile_eq_none (strOf_ten_pow le_rfl) (get_single _ _ _)] at hwrite
    cases hwrite
  · refine not_survives ⟨.empty, .ofList [("subnets6", .ofList [("7", "Attic, top, 2001:db8::/64, 5")])]⟩
      "[subnets6]\n7 = Attic  top  2001:db8::/64, 5\n\n"
      ⟨.empty, .ofList [("subnets6", .ofList [("7", "Attic  top  2001:db8::/64, 5")])]⟩
      (by decide +kernel) (by decide +kernel) (by decide +kernel) ?_
    intro h
    have hcomma : HasComma networks .v6 "Attic, top, 2001:db8::/64, 5" "2001:db8::/64" (some 5) :=
      ⟨by decide, by decide, ["Attic", "top"], by decide, .inr ⟨rfl, "5", 5, by decide,
        by decide, rfl⟩⟩
    obtain ⟨name, hname⟩ := h.commas 7 "7" "Attic, top, 2001:db8::/64, 5" "2001:db8::/64" (some 5) (by decide)
      (by decide) (by decide) hcomma
    have hnone : (deriveSubnetMap networks .v6
        ⟨.empty, .ofList [("subnets6", .ofList [("7", "Attic  top  2001:db8::/64, 5")])]⟩).get 7 = none := by
      decide
    rw [hnone] at hname
    cases hname

end JenKea.SubnetMap
