import JenKea.Lib.Overwritten
import JenKea.SubnetMap.Lines

/-!
# The map survives its own file

What a write of the map leaves in the file, and what is read of it again.
-/

namespace JenKea.SubnetMap

open Text

variable {isNetwork : String → Bool} {f : Family} {p : Ini} {options : Map String String} {sid : ℤ} {entry : Entry}
  {key raw : String} {stored m : Map ℤ Entry}

/-! ## Reading a section of numbers -/

theorem get_rawSection (h : p.sections.get f.sectionName = some options) :
    (rawSection f p).get key = (options.get key).or (p.defaults.get key) := by
  rw [rawSection, h]
  exact Map.get_putAll_entries

theorem loaded_eq_some {x : String × String} :
    loaded isNetwork f x = some (sid, entry) ↔ entryOf isNetwork f x.2 = some entry ∧ toInt x.1 = some sid := by
  unfold loaded
  rw [Option.bind_eq_some_iff]
  constructor
  · rintro ⟨entry', hentry, h⟩
    obtain ⟨sid', hsid, heq⟩ := Option.map_eq_some_iff.mp h
    obtain ⟨rfl, rfl⟩ := Prod.mk.inj heq
    exact ⟨hentry, hsid⟩
  · rintro ⟨hentry, hsid⟩
    exact ⟨entry, hentry, by rw [hsid]; rfl⟩

/-- A subnet that is read is that of a line. -/
theorem exists_of_derive (h : (deriveSubnetMap isNetwork f p).get sid = some entry) :
    ∃ key raw, (rawSection f p).get key = some raw ∧ entryOf isNetwork f raw = some entry ∧ toInt key = some sid := by
  obtain ⟨⟨key, raw⟩, hline, hloaded⟩ := List.mem_filterMap.mp (Overwritten.mem_of_get_ofList h)
  obtain ⟨hread, hkey⟩ := loaded_eq_some.mp hloaded
  exact ⟨key, raw, Map.mem_entries.mp hline, hread, hkey⟩

/-- The keys of a section are the ids of subnets, and those of the defaults are no ids. -/
structure Numbered (p : Ini) (options : Map String String) : Prop where
  keys : ∀ key raw, options.get key = some raw → ∃ sid, strOf sid = some key
  defaults : ∀ key raw, p.defaults.get key = some raw → toInt key = none

/-- The subnet of an id is the one in the line under it. -/
theorem derive_get (hsection : p.sections.get f.sectionName = some options) (h : Numbered p options)
    (hsid : strOf sid = some key) :
    (deriveSubnetMap isNetwork f p).get sid = (options.get key).bind (entryOf isNetwork f) := by
  have hline : ∀ key' raw, (rawSection f p).get key' = some raw → toInt key' = some sid →
      options.get key = some raw := by
    intro key' raw hget hint
    rw [get_rawSection hsection] at hget
    cases hoption : options.get key' with
    | none =>
      rw [hoption] at hget
      have hnone := h.defaults key' raw hget
      rw [hint] at hnone
      cases hnone
    | some raw' =>
      rw [hoption] at hget
      obtain ⟨sid', hsid'⟩ := h.keys key' raw' hoption
      obtain rfl := Option.some.inj (hint.symm.trans (toInt_of_strOf hsid'))
      obtain rfl := Option.some.inj (hsid.symm.trans hsid')
      exact hoption.trans hget
  cases hread : (options.get key).bind (entryOf isNetwork f) with
  | none =>
    cases hget : (deriveSubnetMap isNetwork f p).get sid with
    | none => rfl
    | some entry =>
      obtain ⟨key', raw, hraw, hentry, hint⟩ := exists_of_derive hget
      rw [hline key' raw hraw hint, Option.bind_some, hentry] at hread
      cases hread
  | some entry =>
    obtain ⟨raw, hraw, hentry⟩ := Option.bind_eq_some_iff.mp hread
    refine Map.get_putAll_of_mem (List.mem_filterMap.mpr ⟨(key, raw), ?_, ?_⟩) ?_
    · refine Map.mem_entries.mpr ?_
      rw [get_rawSection hsection, hraw]
      rfl
    · exact loaded_eq_some.mpr ⟨hentry, toInt_of_strOf hsid⟩
    · rintro ⟨sid', entry'⟩ hmem rfl
      obtain ⟨⟨key', raw'⟩, hmem, hloaded⟩ := List.mem_filterMap.mp hmem
      obtain ⟨hentry', hint⟩ := loaded_eq_some.mp hloaded
      obtain rfl := Option.some.inj (hraw.symm.trans (hline key' raw' (Map.mem_entries.mp hmem) hint))
      exact Option.some.inj (hentry'.symm.trans hentry)

/-! ## The map that is written -/

/-- What one line adds to the map. -/
theorem get_repairStep (x : String × String) :
    (repairStep stored m x).get sid =
      (m.get sid).or (if (stored.get sid).isNone ∧ toInt x.1 = some sid then repaired x.2 else none) := by
  unfold repairStep
  cases hint : toInt x.1 with
  | none =>
    rw [if_neg fun h => nomatch h.2]
    exact (Option.or_none).symm
  | some sid' =>
    dsimp only
    by_cases hthere : sid' ∈ stored.keys ∨ sid' ∈ m.keys
    · rw [if_pos hthere]
      by_cases hsid : (stored.get sid).isNone ∧ some sid' = some sid
      · obtain ⟨hnone, heq⟩ := hsid
        obtain rfl := Option.some.inj heq
        rw [Map.mem_keys, Map.mem_keys, ← Option.not_isNone, hnone] at hthere
        obtain ⟨entry, hentry⟩ := Option.isSome_iff_exists.mp (hthere.resolve_left (by simp))
        rw [hentry]
        rfl
      · rw [if_neg hsid, Option.or_none]
    · rw [if_neg hthere]
      rw [Map.mem_keys, Map.mem_keys, not_or, Option.not_isSome_iff_eq_none, Option.not_isSome_iff_eq_none] at hthere
      obtain ⟨hstored, hm⟩ := hthere
      cases hrepaired : repaired x.2 with
      | none =>
        have hnone : (if (stored.get sid).isNone ∧ some sid' = some sid then (none : Option Entry) else none) = none :=
          ite_self none
        rw [hnone, Option.or_none]
      | some entry =>
        dsimp only
        rw [Map.get_put]
        by_cases hsid : sid = sid'
        · subst hsid
          rw [if_pos rfl, hm, if_pos ⟨by rw [hstored]; rfl, rfl⟩]
          rfl
        · rw [if_neg hsid, if_neg fun h => hsid (Option.some.inj h.2).symm, Option.or_none]

/-- What the lines add to the map. -/
theorem get_foldl_repairStep (l : List (String × String)) :
    (l.foldl (repairStep stored) m).get sid =
      (m.get sid).or (if (stored.get sid).isNone then
        (l.find? fun x => toInt x.1 = some sid ∧ (repaired x.2).isSome).bind fun x => repaired x.2 else none) := by
  induction l generalizing m with
  | nil =>
    rw [List.foldl_nil, List.find?_nil, Option.bind_none, ite_self, Option.or_none]
  | cons x l ih =>
    rw [List.foldl_cons, ih, get_repairStep, Option.or_assoc, List.find?_cons]
    congr 1
    by_cases hstored : (stored.get sid).isNone
    · rw [if_pos hstored, if_pos hstored]
      by_cases hint : toInt x.1 = some sid
      · rw [if_pos ⟨hstored, hint⟩]
        cases hrepaired : repaired x.2 with
        | none => simp [hint]
        | some entry => simp [hint, hrepaired]
      · rw [if_neg fun h => hint h.2]
        simp [hint]
    · rw [if_neg hstored, if_neg hstored, if_neg fun h => hstored h.1]
      rfl

/-! ## The section that is written -/

theorem intText_eq_ok : intText sid = .ok key ↔ strOf sid = some key := by
  unfold intText
  cases strOf sid with
  | none => exact iff_of_false (fun h => nomatch h) fun h => nomatch h
  | some text => exact ⟨fun h => congrArg some (Except.ok.inj h), fun h => congrArg Except.ok (Option.some.inj h)⟩

/-- The line of a subnet: its name, its prefix, and the id it is paired with. -/
theorem option_eq_ok {line : String} :
    option f (sid, entry) = .ok (key, line) ↔ strOf sid = some key ∧
      ((f = .v4 ∨ entry.pairedSubnet4Id = none) ∧ line = commaJoin [entry.name, entry.cidr] ∨
        f = .v6 ∧ ∃ n paired, entry.pairedSubnet4Id = some n ∧ strOf n = some paired ∧
          line = commaJoin [entry.name, entry.cidr, paired]) := by
  unfold option
  rw [Except.bind_eq_ok]
  simp only [intText_eq_ok]
  constructor
  · rintro ⟨key', hkey, h⟩
    cases f with
    | v4 =>
      obtain ⟨rfl, rfl⟩ := Prod.mk.inj (Except.ok.inj h)
      exact ⟨hkey, .inl ⟨.inl rfl, rfl⟩⟩
    | v6 =>
      cases hpaired : entry.pairedSubnet4Id with
      | none =>
        rw [hpaired] at h
        obtain ⟨rfl, rfl⟩ := Prod.mk.inj (Except.ok.inj h)
        exact ⟨hkey, .inl ⟨.inr rfl, rfl⟩⟩
      | some n =>
        rw [hpaired] at h
        obtain ⟨paired, hn, h⟩ := Except.bind_eq_ok.mp h
        obtain ⟨rfl, rfl⟩ := Prod.mk.inj (Except.ok.inj h)
        exact ⟨hkey, .inr ⟨rfl, n, paired, rfl, intText_eq_ok.mp hn, rfl⟩⟩
  · rintro ⟨hkey, ⟨hnot, rfl⟩ | ⟨rfl, n, paired, hpaired, hn, rfl⟩⟩
    · refine ⟨key, hkey, ?_⟩
      rcases hnot with rfl | hnone
      · rfl
      · rw [hnone]
        cases f <;> rfl
    · refine ⟨key, hkey, ?_⟩
      rw [hpaired]
      exact Except.bind_eq_ok.mpr ⟨paired, intText_eq_ok.mpr hn, rfl⟩

theorem get_options {reconciled : Map ℤ Entry} {l : List (String × String)} {line : String}
    (h : reconciled.entries.mapM (option f) = .ok l) :
    (Map.ofList l).get key = some line ↔
      ∃ sid entry, reconciled.get sid = some entry ∧ option f (sid, entry) = .ok (key, line) := by
  constructor
  · intro hget
    obtain ⟨⟨sid, entry⟩, hmem, hoption⟩ := (Except.mem_of_mapM h).mp (Overwritten.mem_of_get_ofList hget)
    exact ⟨sid, entry, Map.mem_entries.mp hmem, hoption⟩
  · rintro ⟨sid, entry, hentry, hoption⟩
    refine Map.get_putAll_of_mem ((Except.mem_of_mapM h).mpr ⟨_, Map.mem_entries.mpr hentry, hoption⟩) ?_
    rintro ⟨key', line'⟩ hmem rfl
    obtain ⟨⟨sid', entry'⟩, hmem', hoption'⟩ := (Except.mem_of_mapM h).mp hmem
    have hsid := toInt_of_strOf (option_eq_ok.mp hoption).1
    obtain rfl := Option.some.inj (hsid.symm.trans (toInt_of_strOf (option_eq_ok.mp hoption').1))
    obtain rfl := Option.some.inj (hentry.symm.trans (Map.mem_entries.mp hmem'))
    rw [hoption] at hoption'
    exact (Prod.mk.inj (Except.ok.inj hoption')).2.symm

/-! ## The file -/

/-- The configuration with a section made anew. -/
def withSection (f : Family) (options : Map String String) (p : Ini) : Ini :=
  ⟨p.defaults, (p.sections.erase f.sectionName).put f.sectionName options⟩

theorem mapValues_trimValue {options : Map String String}
    (h : ∀ x ∈ options.entries, Ini.RegularOption x.1 x.2.toList) : options.mapValues Ini.trimValue = options := by
  have hsame : ∀ x ∈ options.entries, (x.1, Ini.trimValue x.2) = x := fun x hx =>
    Prod.ext rfl (Ini.trimValue_of_regular (h x hx).regular)
  exact Map.eq_of_entries ((List.map_congr_left hsame).trans (List.map_id _))

theorem sectionName_facts (f : Family) : f.sectionName ≠ "" ∧ f.sectionName ≠ Ini.defaultSection ∧
    '\n' ∉ f.sectionName.toList ∧ '\r' ∉ f.sectionName.toList := by
  cases f <;> decide

theorem get_withSection {s : String} :
    (withSection f options p).sections.get s =
      if s = f.sectionName then some options else p.sections.get s := by
  show ((p.sections.erase f.sectionName).put f.sectionName options).get s = _
  rw [Map.get_put]
  by_cases hs : s = f.sectionName
  · rw [if_pos hs, if_pos hs]
  · rw [if_neg hs, if_neg hs, Map.get_erase, if_neg hs]

/-- The file gives the new section back, and leaves the rest as it was. -/
theorem read_withSection (f : Family) {text : String} (hread : Ini.read text = some p)
    (h : ∀ key line, options.get key = some line → Ini.HeldOption key line) : ∃ q,
      Ini.read (Ini.write (withSection f options p)) = some q ∧ q.defaults = p.defaults ∧
        q.sections.get f.sectionName = some (options.mapValues Ini.trimValue) ∧
          ∀ s, s ≠ f.sectionName → q.sections.get s = p.sections.get s := by
  have hregular := Ini.regular_of_read hread
  obtain ⟨hne, hdefault, hline⟩ := sectionName_facts f
  have hheld : Ini.Held (withSection f options p) := by
    refine ⟨fun x hx => .inl (hregular.defaults x hx), ?_, ?_⟩
    · rintro ⟨s, options'⟩ hx
      have hget := Map.mem_entries.mp hx
      rw [get_withSection] at hget
      by_cases hs : s = f.sectionName
      · rw [if_pos hs] at hget
        obtain rfl := Option.some.inj hget
        rw [hs]
        exact ⟨hne, hline, fun y hy => h y.1 y.2 (Map.mem_entries.mp hy)⟩
      · rw [if_neg hs] at hget
        have hsection := hregular.sections _ (Map.mem_entries.mpr hget)
        exact ⟨hsection.nonempty, hsection.oneLine, fun y hy => .inl (hsection.regular y hy)⟩
    · rw [Map.mem_keys, get_withSection, if_neg hdefault.symm, ← Map.mem_keys]
      exact hregular.noDefault
  refine ⟨_, hheld.read_write, mapValues_trimValue hregular.defaults, ?_, ?_⟩
  · show Map.get (Map.mapValues _ _) _ = _
    rw [Map.get_mapValues, get_withSection, if_pos rfl]
    rfl
  · intro s hs
    show Map.get (Map.mapValues _ _) _ = _
    rw [Map.get_mapValues, get_withSection, if_neg hs]
    cases hget : p.sections.get s with
    | none => rfl
    | some options' =>
      have hsection := hregular.sections _ (Map.mem_entries.mpr hget)
      exact congrArg some (mapValues_trimValue hsection.regular)

/-! ## The map that is written, and read again -/

/-- What every subnet that is written has: an id and a pairing that can be written, and a line that a file holds. -/
structure Writable (sid : ℤ) (entry : Entry) : Prop where
  id : (strOf sid).isSome
  paired : ∀ n, entry.pairedSubnet4Id = some n → (strOf n).isSome
  name : Quiet entry.name
  cidr : Quiet entry.cidr

theorem eq_toString_of_strOf (h : strOf sid = some key) : key = toString sid := by
  unfold strOf at h
  split_ifs at h
  exact (Option.some.inj h).symm

theorem Writable.exists_option (h : Writable sid entry) : ∃ y, option f (sid, entry) = .ok y := by
  obtain ⟨key, hkey⟩ := Option.isSome_iff_exists.mp h.id
  cases hpaired : entry.pairedSubnet4Id with
  | none => exact ⟨(key, _), option_eq_ok.mpr ⟨hkey, .inl ⟨.inr hpaired, rfl⟩⟩⟩
  | some n =>
    obtain ⟨paired, hn⟩ := Option.isSome_iff_exists.mp (h.paired n hpaired)
    cases f with
    | v4 => exact ⟨(key, _), option_eq_ok.mpr ⟨hkey, .inl ⟨.inl rfl, rfl⟩⟩⟩
    | v6 => exact ⟨(key, _), option_eq_ok.mpr ⟨hkey, .inr ⟨rfl, n, paired, hpaired, hn, rfl⟩⟩⟩

theorem Writable.heldOption (h : Writable sid entry) {line : String} (hoption : option f (sid, entry) = .ok (key, line)) :
    Ini.HeldOption key line := by
  obtain ⟨hkey, hline⟩ := option_eq_ok.mp hoption
  obtain rfl := eq_toString_of_strOf hkey
  have hquiet : Quiet line := by
    rcases hline with ⟨_, rfl⟩ | ⟨_, n, paired, _, hn, rfl⟩
    · refine Quiet.commaJoin _ fun next hnext => ?_
      simp only [List.mem_cons, List.not_mem_nil, or_false] at hnext
      rcases hnext with rfl | rfl
      · exact h.name
      · exact h.cidr
    · obtain rfl := eq_toString_of_strOf hn
      refine Quiet.commaJoin _ fun next hnext => ?_
      simp only [List.mem_cons, List.not_mem_nil, or_false] at hnext
      rcases hnext with rfl | rfl | rfl
      · exact h.name
      · exact h.cidr
      · exact (holds_toString n).quiet
  exact .inr ⟨plainKey_toString sid, hquiet.quiet, hquiet.noReturn⟩

/-- What is read again under each id is the line that was written for it. -/
theorem exists_read_write (isNetwork : String → Bool) (f : Family) {text : String} {reconciled : Map ℤ Entry} (hread : Ini.read text = some p)
    (hdefaults : ∀ key raw, p.defaults.get key = some raw → toInt key = none)
    (h : ∀ sid entry, reconciled.get sid = some entry → Writable sid entry) : ∃ l q,
      reconciled.entries.mapM (option f) = .ok l ∧
        Ini.read (Ini.write (withSection f (.ofList l) p)) = some q ∧ q.defaults = p.defaults ∧
          (∀ s, s ≠ f.sectionName → q.sections.get s = p.sections.get s) ∧
            (∀ sid, reconciled.get sid = none → (deriveSubnetMap isNetwork f q).get sid = none) ∧
              ∀ sid entry, reconciled.get sid = some entry → ∃ key line options,
                option f (sid, entry) = .ok (key, line) ∧ q.sections.get f.sectionName = some options ∧
                  options.get key = some (Ini.trimValue line) ∧
                    (deriveSubnetMap isNetwork f q).get sid = entryOf isNetwork f (Ini.trimValue line) := by
  obtain ⟨l, hl⟩ := Except.exists_mapM_ok (l := reconciled.entries) (f := option f)
    fun x hx => (h x.1 x.2 (Map.mem_entries.mp hx)).exists_option
  have hheld : ∀ key line, (Map.ofList l).get key = some line → Ini.HeldOption key line := by
    intro key line hget
    obtain ⟨sid, entry, hentry, hoption⟩ := (get_options hl).mp hget
    exact (h sid entry hentry).heldOption hoption
  obtain ⟨q, hq, hqdefaults, hsection, hothers⟩ := read_withSection f hread hheld
  have hnumbered : Numbered q ((Map.ofList l).mapValues Ini.trimValue) := by
    refine ⟨fun key raw hget => ?_, fun key raw hget => hdefaults key raw (hqdefaults ▸ hget)⟩
    rw [Map.get_mapValues] at hget
    obtain ⟨line, hline, _⟩ := Option.map_eq_some_iff.mp hget
    obtain ⟨sid, entry, _, hoption⟩ := (get_options hl).mp hline
    exact ⟨sid, (option_eq_ok.mp hoption).1⟩
  refine ⟨l, q, hl, hq, hqdefaults, hothers, fun sid hnone => ?_, fun sid entry hentry => ?_⟩
  · cases hderive : (deriveSubnetMap isNetwork f q).get sid with
    | none => rfl
    | some entry =>
      obtain ⟨key, raw, hget, _, hint⟩ := exists_of_derive hderive
      rw [get_rawSection hsection, Map.get_mapValues] at hget
      cases hline : (Map.ofList l).get key with
      | none =>
        rw [hline] at hget
        have hno := hnumbered.defaults key raw hget
        rw [hint] at hno
        cases hno
      | some line =>
        obtain ⟨sid', entry', hentry', hoption⟩ := (get_options hl).mp hline
        obtain rfl := Option.some.inj (hint.symm.trans (toInt_of_strOf (option_eq_ok.mp hoption).1))
        rw [hnone] at hentry'
        cases hentry'
  · obtain ⟨⟨key, line⟩, hoption⟩ := (h sid entry hentry).exists_option (f := f)
    have hget := (get_options hl).mpr ⟨sid, entry, hentry, hoption⟩
    have htrimmed : ((Map.ofList l).mapValues Ini.trimValue).get key = some (Ini.trimValue line) := by
      rw [Map.get_mapValues, hget, Option.map_some]
    refine ⟨key, line, _, hoption, hsection, htrimmed, ?_⟩
    rw [derive_get hsection hnumbered (option_eq_ok.mp hoption).1, htrimmed, Option.bind_some]

end JenKea.SubnetMap
