import JenKea.Credentials.Materialize

/-!
# What the conversion changes

What one copy, one round of copies and all three rounds make of a configuration. Copies are made of the
passwords of the old reading, so this reading stays what it was; and after two rounds nothing is left to be
copied, a server's password before those of its daemons.
-/

namespace JenKea.Credentials

variable {place : String → Option String} {legacy : Bool} {p p' p'' : Ini} {name parent : Name}

/-! ## The old reading -/

/-- The old reading: an endpoint's own password, else its parent's. -/
theorem former_eq : former legacy p name = (formerOwn legacy p name).getD
    (match inheritsFrom name with
      | some parent => former legacy p parent
      | none => "") := by
  cases name <;> rfl

theorem former_of_own {v : String} (h : formerOwn legacy p name = some v) : former legacy p name = v := by
  rw [former_eq, h]
  rfl

theorem former_of_parent (h : formerOwn legacy p name = none) (hparent : inheritsFrom name = some parent) :
    former legacy p name = former legacy p parent := by
  rw [former_eq, h, hparent]
  rfl

theorem former_of_root (h : formerOwn legacy p name = none) (hparent : inheritsFrom name = none) :
    former legacy p name = "" := by
  rw [former_eq, h, hparent]
  rfl

theorem formerOwn_of_ne {v : String} (h : ownPassword p name = some v) (hne : v ≠ "") :
    formerOwn legacy p name = some v := by
  rw [formerOwn, if_neg (fun hblank => hne (Option.some.inj (h.symm.trans hblank.2.2))), h]

theorem formerOwn_eq_none (h : ownPassword p name = none) : formerOwn legacy p name = none := by
  rw [formerOwn, h]
  simp

/-- The endpoints that are not a server's daemons have no blanks of old. -/
theorem formerOwn_of_notMem (h : (passwordKey name).2 ∉ legacyBlankKeys) :
    formerOwn legacy p name = ownPassword p name := by
  rw [formerOwn, if_neg fun hblank => h hblank.2.1]

/-- The reading on the same host sends nothing but what the old reading did. -/
theorem password_view : (endpoint place (view legacy p) name).password = "" ∨
    (endpoint place (view legacy p) name).password = former legacy p name := by
  induction name using inheritsFrom_induction with
  | h name ih =>
    have hview := @ownPassword_view legacy p name
    cases hown : formerOwn legacy p name with
    | some v =>
      right
      rw [former_of_own hown, (endpoint_of_own (hview.trans hown)).1]
    | none =>
      have habsent := hview.trans hown
      cases hparent : inheritsFrom name with
      | none => exact .inl (endpoint_of_root habsent hparent).1
      | some parent =>
        by_cases hpass : (endpoint place (view legacy p) parent).password = ""
        · exact .inl (endpoint_blank habsent hparent (.inl hpass)).1
        · by_cases hurl : (endpoint place (view legacy p) name).url = ""
          · exact .inl (endpoint_blank habsent hparent (.inr hurl)).1
          · cases hsame : sameHost place (endpoint place (view legacy p) parent).url
                (endpoint place (view legacy p) name).url with
            | true =>
              right
              rw [former_of_parent hown hparent, (endpoint_inherits habsent hparent hpass hurl hsame).1]
              exact (ih parent hparent).resolve_left hpass
            | false => exact .inl (endpoint_withheld habsent hparent hpass hurl hsame).1

/-- A password is withheld of an endpoint without its own, on another host than its parent's. -/
theorem of_withheld (h : (endpoint place p name).withheld = some parent) :
    ownPassword p name = none ∧ inheritsFrom name = some parent ∧
      (endpoint place p parent).password ≠ "" ∧ (endpoint place p name).url ≠ "" ∧
        sameHost place (endpoint place p parent).url (endpoint place p name).url = false := by
  cases hown : ownPassword p name with
  | some v =>
    rw [(endpoint_of_own hown).2.1] at h
    cases h
  | none =>
    cases hparent : inheritsFrom name with
    | none =>
      rw [(endpoint_of_root hown hparent).2.1] at h
      cases h
    | some parent' =>
      by_cases hpass : (endpoint place p parent').password = ""
      · rw [(endpoint_blank hown hparent (.inl hpass)).2.1] at h
        cases h
      · by_cases hurl : (endpoint place p name).url = ""
        · rw [(endpoint_blank hown hparent (.inr hurl)).2.1] at h
          cases h
        · cases hsame : sameHost place (endpoint place p parent').url (endpoint place p name).url with
          | true =>
            rw [(endpoint_inherits hown hparent hpass hurl hsame).2.1] at h
            cases h
          | false =>
            rw [(endpoint_withheld hown hparent hpass hurl hsame).2.1] at h
            obtain rfl := Option.some.inj h
            exact ⟨rfl, rfl, hpass, hurl, hsame⟩

/-! ## Copies -/

/-- An endpoint's key holds a copy now, of what the old reading sends it. -/
structure Copy (place : String → Option String) (legacy : Bool) (p p' : Ini) (name : Name) : Prop where
  absent : formerOwn legacy p name = none
  copied : ownPassword p' name = some (former legacy p name)
  nonblank : former legacy p name ≠ ""
  url : (endpoint place p name).url ≠ ""
  mem : name ∈ names p
  sec : (p.sections.get (passwordKey name).1).isSome = true
  parent : ∃ parent, inheritsFrom name = some parent ∧
    sameHost place (endpoint place p parent).url (endpoint place p name).url = false ∧
      (ownPassword p parent ≠ none ∨ (endpoint place p parent).url ≠ "")

/-- The configuration has copies now that it had not, and is else as it was. -/
structure Copied (place : String → Option String) (legacy : Bool) (p p' : Ini) : Prop where
  addresses : SameAddresses p p'
  sections : ∀ sec, (p'.sections.get sec).isSome = (p.sections.get sec).isSome
  own : ∀ name, ownPassword p' name = ownPassword p name ∨ Copy place legacy p p' name

theorem Copied.refl : Copied place legacy p p := ⟨.refl p, fun _ => rfl, fun _ => .inl rfl⟩

/-- An own password stays. -/
theorem Copied.own_of_some (h : Copied place legacy p p') (hown : formerOwn legacy p name ≠ none) :
    ownPassword p' name = ownPassword p name :=
  (h.own name).resolve_right fun hcopy => hown hcopy.absent

theorem Copied.formerOwn_of_some (h : Copied place legacy p p') (hown : formerOwn legacy p name ≠ none) :
    formerOwn legacy p' name = formerOwn legacy p name := by
  rw [formerOwn, formerOwn, h.own_of_some hown]

/-- The old reading stays. -/
theorem Copied.former_eq (h : Copied place legacy p p') (name : Name) :
    former legacy p' name = former legacy p name := by
  induction name using inheritsFrom_induction with
  | h name ih =>
    rcases h.own name with hsame | hcopy
    · have hown : formerOwn legacy p' name = formerOwn legacy p name := by rw [formerOwn, formerOwn, hsame]
      cases hformer : formerOwn legacy p name with
      | some v => rw [former_of_own (hown.trans hformer), former_of_own hformer]
      | none =>
        cases hparent : inheritsFrom name with
        | none => rw [former_of_root (hown.trans hformer) hparent, former_of_root hformer hparent]
        | some parent =>
          rw [former_of_parent (hown.trans hformer) hparent, former_of_parent hformer hparent,
            ih parent hparent]
    · exact former_of_own (formerOwn_of_ne hcopy.copied hcopy.nonblank)

theorem Copied.trans (h : Copied place legacy p p') (h' : Copied place legacy p' p'') :
    Copied place legacy p p'' := by
  refine ⟨h.addresses.trans h'.addresses, fun sec => (h'.sections sec).trans (h.sections sec),
    fun name => ?_⟩
  rcases h.own name with hsame | hcopy
  · rcases h'.own name with hsame' | hcopy'
    · exact .inl (hsame'.trans hsame)
    · -- the copy of the second step is one of both
      right
      have habsent : formerOwn legacy p name = none := by
        have hnone := hcopy'.absent
        rwa [formerOwn, hsame, ← formerOwn] at hnone
      have hcopied := hcopy'.copied
      rw [h.former_eq] at hcopied
      obtain ⟨parent, hparent, hhost, hreach⟩ := hcopy'.parent
      rw [h.addresses.url_eq, h.addresses.url_eq] at hhost
      have hreach' : ownPassword p parent ≠ none ∨ (endpoint place p parent).url ≠ "" := by
        rcases hreach with hown | hurl
        · rcases h.own parent with hparentSame | hparentCopy
          · exact .inl (hparentSame ▸ hown)
          · exact .inr hparentCopy.url
        · exact .inr (@SameAddresses.url_eq place _ _ h.addresses parent ▸ hurl)
      exact ⟨habsent, hcopied, h.former_eq name ▸ hcopy'.nonblank,
        @SameAddresses.url_eq place _ _ h.addresses name ▸ hcopy'.url, h.addresses.names_eq ▸ hcopy'.mem,
        h.sections _ ▸ hcopy'.sec, parent, hparent, hhost, hreach'⟩
  · right
    have hown := @formerOwn_of_ne legacy _ _ _ hcopy.copied hcopy.nonblank
    have hstays := @Copied.own_of_some _ _ _ _ name h' (by rw [hown]; exact Option.some_ne_none _)
    exact { hcopy with copied := hstays.trans hcopy.copied }

/-! ## One copy -/

theorem serverSection_inj {n m : ℕ} : serverSection n = serverSection m ↔ n = m := by
  constructor
  · intro h
    have hlist := congrArg String.toList h
    unfold serverSection at hlist
    rw [String.toList_append, String.toList_append] at hlist
    exact Nat.repr_injective (String.toList_injective (List.append_cancel_left hlist))
  · rintro rfl
    rfl

/-- Each endpoint has a key of its own. -/
theorem passwordKey_inj {m : Name} (h : passwordKey m = passwordKey name) : m = name := by
  have hne : ∀ (n : ℕ) (sec : String), isServerSection sec = false →
      serverSection n ≠ sec ∧ sec ≠ serverSection n := by
    intro n sec hsec
    have hserver := isServerSection_serverSection n
    constructor
    · rintro rfl
      exact Bool.false_ne_true (hsec.symm.trans hserver)
    · rintro rfl
      exact Bool.false_ne_true (hsec.symm.trans hserver)
  have hkea := fun n => hne n "kea" (by decide)
  have hkea6 := fun n => hne n "kea6" (by decide)
  have hd2 := fun n => hne n "d2" (by decide)
  cases m <;> cases name <;>
    simp_all [passwordKey, serverSection_inj]

theorem passwordKey_mem : (passwordKey name).2 ∈ ["api_pass", "password", "api6_pass", "api_d2_pass"] := by
  cases name <;> simp [passwordKey]

theorem value_set {sec key v s k : String} : value (set p sec key v) s k =
    if (p.sections.get sec).isSome = true ∧ s = sec ∧ k = key then some v else value p s k := by
  unfold value set
  cases hsec : p.sections.get sec with
  | none => simp
  | some options =>
    dsimp only
    rw [Map.get_put]
    by_cases hs : s = sec
    · rw [if_pos hs, hs, hsec, Option.bind_some, Option.bind_some, Map.get_put]
      by_cases hk : k = key
      · simp [hk]
      · simp [hk]
    · simp [hs]

theorem ownPassword_set {sec key v : String} : ownPassword (set p sec key v) name =
    if (p.sections.get sec).isSome = true ∧ (passwordKey name).1 = sec ∧ (passwordKey name).2 = key then some v
    else ownPassword p name := by
  rw [ownPassword_eq_value, ownPassword_eq_value, value_set]

/-- A key that no password stands in. -/
theorem ownPassword_set_of_notMem {sec key v : String}
    (h : key ∉ ["api_pass", "password", "api6_pass", "api_d2_pass"]) :
    ownPassword (set p sec key v) name = ownPassword p name := by
  rw [ownPassword_set, if_neg]
  rintro ⟨-, -, hkey⟩
  exact h (hkey ▸ passwordKey_mem)

/-- The marks and the users stand beside the passwords and the addresses. -/
theorem keys_copyInto : (passwordKey name).2 ∉ addressKeys ∧ (passwordKey name).2 ++ "_shared" ∉ addressKeys ∧
    (userKey name).2 ∉ addressKeys ∧
      (passwordKey name).2 ++ "_shared" ∉ ["api_pass", "password", "api6_pass", "api_d2_pass"] ∧
        (userKey name).2 ∉ ["api_pass", "password", "api6_pass", "api_d2_pass"] := by
  cases name <;> simp [passwordKey, userKey, addressKeys]

theorem copyInto_eq {e : Endpoint} : copyInto p name e =
    if e.user ≠ "" ∧ has (set (set p (passwordKey name).1 (passwordKey name).2 e.password)
        (passwordKey name).1 ((passwordKey name).2 ++ "_shared") "1") (userKey name).1 (userKey name).2 =
          false then
      set (set (set p (passwordKey name).1 (passwordKey name).2 e.password) (passwordKey name).1
        ((passwordKey name).2 ++ "_shared") "1") (userKey name).1 (userKey name).2 e.user
    else set (set p (passwordKey name).1 (passwordKey name).2 e.password) (passwordKey name).1
      ((passwordKey name).2 ++ "_shared") "1" := rfl

theorem sameAddresses_copyInto {e : Endpoint} : SameAddresses p (copyInto p name e) := by
  obtain ⟨hkey, hshared, huser, -⟩ := @keys_copyInto name
  have hboth := (@sameAddresses_set p ((passwordKey name).1) _ e.password hkey).trans
    (@sameAddresses_set _ ((passwordKey name).1) _ "1" hshared)
  rw [copyInto_eq]
  split_ifs
  · exact hboth.trans (sameAddresses_set huser)
  · exact hboth

theorem isSome_sections_copyInto {e : Endpoint} {sec : String} :
    ((copyInto p name e).sections.get sec).isSome = (p.sections.get sec).isSome := by
  rw [copyInto_eq]
  split_ifs <;> simp only [isSome_sections_set]

theorem ownPassword_copyInto {e : Endpoint} (hsec : (p.sections.get (passwordKey name).1).isSome = true)
    (m : Name) : ownPassword (copyInto p name e) m = if m = name then some e.password else ownPassword p m := by
  obtain ⟨-, -, -, hshared, huser⟩ := @keys_copyInto name
  have hboth : ownPassword (set (set p (passwordKey name).1 (passwordKey name).2 e.password)
      (passwordKey name).1 ((passwordKey name).2 ++ "_shared") "1") m =
        if m = name then some e.password else ownPassword p m := by
    rw [ownPassword_set_of_notMem hshared, ownPassword_set]
    by_cases hname : m = name
    · rw [if_pos hname, hname, if_pos ⟨hsec, rfl, rfl⟩]
    · rw [if_neg hname, if_neg fun h => hname (passwordKey_inj (Prod.ext h.2.1 h.2.2))]
  rw [copyInto_eq]
  by_cases hadd : e.user ≠ "" ∧ has (set (set p (passwordKey name).1 (passwordKey name).2 e.password)
      (passwordKey name).1 ((passwordKey name).2 ++ "_shared") "1") (userKey name).1 (userKey name).2 = false
  · rw [if_pos hadd, ownPassword_set_of_notMem huser]
    exact hboth
  · rw [if_neg hadd]
    exact hboth

/-- An endpoint has nothing of its own to read: no key, or a blank of old. -/
theorem blank_iff : (has p (passwordKey name).1 (passwordKey name).2 = false ∨
    (legacy && has p (passwordKey name).1 (passwordKey name).2 && isLegacyBlank (passwordKey name).1
      (passwordKey name).2 (get p (passwordKey name).1 (passwordKey name).2 "")) = true) ↔
        formerOwn legacy p name = none := by
  rw [← ownPassword_view, ownPassword_eq_value, value_view, has_eq_value, get_eq_value]
  cases value p (passwordKey name).1 (passwordKey name).2 with
  | none => simp
  | some v =>
    simp [Option.filter_some]

/-- An endpoint is pending: its parent's password is withheld. -/
def Pending (place : String → Option String) (legacy : Bool) (p : Ini) (name : Name) : Prop :=
  name ∈ names p ∧ (endpoint place (view legacy p) name).withheld ≠ none

theorem mem_pendingConversions :
    name ∈ pendingConversions place p legacy ↔ Pending place legacy p name := by
  unfold pendingConversions Pending
  rw [List.mem_map]
  have hnames : names (view legacy p) = names p := sameAddresses_view.names_eq
  constructor
  · rintro ⟨x, hx, rfl⟩
    obtain ⟨hentry, hkeep⟩ := List.mem_filter.mp hx
    obtain ⟨hmem, heq⟩ := mem_resolve.mp hentry
    have hwithheld : x.2.withheld.isSome = true := (of_decide_eq_true hkeep).1
    rw [heq] at hwithheld
    exact ⟨hnames ▸ hmem, Option.isSome_iff_ne_none.mp hwithheld⟩
  · rintro ⟨hmem, hwithheld⟩
    obtain ⟨parent, hparent⟩ := Option.ne_none_iff_exists'.mp hwithheld
    obtain ⟨-, hinherits, -, hurl, -⟩ := of_withheld hparent
    have hne : name ≠ .kea := by
      rintro rfl
      cases hinherits
    refine ⟨(name, endpoint place (view legacy p) name), List.mem_filter.mpr
      ⟨mem_resolve.mpr ⟨hnames ▸ hmem, rfl⟩, decide_eq_true ⟨?_, hurl, hne⟩⟩, rfl⟩
    rw [hparent]
    rfl

/-- What is pending has nothing of its own to read, and a parent with a password on another host. -/
theorem Pending.spec (h : Pending place legacy p name) : formerOwn legacy p name = none ∧
    ∃ parent, inheritsFrom name = some parent ∧ parent ∈ names p ∧
      (endpoint place (view legacy p) name).withheld = some parent ∧
        (endpoint place (view legacy p) parent).password ≠ "" ∧ (endpoint place p name).url ≠ "" ∧
          sameHost place (endpoint place p parent).url (endpoint place p name).url = false := by
  obtain ⟨hmem, hwithheld⟩ := h
  obtain ⟨parent, hparent⟩ := Option.ne_none_iff_exists'.mp hwithheld
  obtain ⟨hown, hinherits, hpass, hurl, hhost⟩ := of_withheld hparent
  rw [sameAddresses_view.url_eq] at hurl hhost
  rw [sameAddresses_view.url_eq] at hhost
  exact ⟨ownPassword_view.symm.trans hown, parent, hinherits, parent_mem_names hinherits hmem, hparent,
    hpass, hurl, hhost⟩

/-- The step of a name that is pending since the round began. -/
theorem convert_pending {s : Ini × List Name} (hcopied : Copied place legacy p s.1)
    (hpending : Pending place legacy p name) :
    Copied place legacy s.1 (convert legacy (resolve place (view legacy p)) s name).1 ∧
      ((p.sections.get (passwordKey name).1).isSome = true →
        formerOwn legacy (convert legacy (resolve place (view legacy p)) s name).1 name ≠ none) := by
  obtain ⟨hown, parent, hinherits, hparentMem, hparent, hpass, hurl, hhost⟩ := hpending.spec
  have hnames : names (view legacy p) = names p := sameAddresses_view.names_eq
  have hname : (resolve place (view legacy p)).get name = some (endpoint place (view legacy p) name) := by
    rw [get_resolve, hnames, if_pos hpending.1]
  have hget : (resolve place (view legacy p)).get parent =
      some (endpoint place (view legacy p) parent) := by
    rw [get_resolve, hnames, if_pos hparentMem]
  have hlookup : (((resolve place (view legacy p)).get name).bind Endpoint.withheld).bind
      (resolve place (view legacy p)).get = some (endpoint place (view legacy p) parent) := by
    rw [hname, Option.bind_some, hparent, Option.bind_some, hget]
  have hsec := hcopied.sections (passwordKey name).1
  unfold convert
  rw [hlookup]
  dsimp only
  rw [if_neg hpass, hsec]
  by_cases hcond : (p.sections.get (passwordKey name).1).isSome = true ∧
      formerOwn legacy s.1 name = none
  · rw [if_pos ⟨hcond.1, blank_iff.mpr hcond.2⟩]
    have hcopy := @ownPassword_copyInto s.1 name (endpoint place (view legacy p) parent) (hsec.trans hcond.1)
    -- what is copied is the old reading of the parent
    have hvalue : (endpoint place (view legacy p) parent).password = former legacy s.1 name := by
      rw [hcopied.former_eq, former_of_parent hown hinherits]
      exact password_view.resolve_left hpass
    have hreach : ownPassword s.1 parent ≠ none ∨ (endpoint place s.1 parent).url ≠ "" := by
      rw [hcopied.addresses.url_eq]
      by_contra hnot
      push Not at hnot
      have hnone : formerOwn legacy p parent = none := by
        rcases hcopied.own parent with hsame | hcopy
        · exact formerOwn_eq_none (hsame.symm.trans hnot.1)
        · exact hcopy.absent
      refine hpass ?_
      have habsent := (@ownPassword_view legacy p _).trans hnone
      cases hgrand : inheritsFrom parent with
      | none => exact (endpoint_of_root habsent hgrand).1
      | some grand =>
        exact (endpoint_blank habsent hgrand (.inr (by rw [sameAddresses_view.url_eq]; exact hnot.2))).1
    refine ⟨⟨sameAddresses_copyInto, fun sec => isSome_sections_copyInto, fun m => ?_⟩, fun _ => ?_⟩
    · rw [hcopy]
      by_cases hm : m = name
      · right
        rw [hm]
        refine ⟨hcond.2, ?_, hvalue ▸ hpass, ?_, ?_, hsec.trans hcond.1, parent, hinherits, ?_, hreach⟩
        · rw [hcopy, if_pos rfl, hvalue]
        · rw [hcopied.addresses.url_eq]
          exact hurl
        · rw [hcopied.addresses.names_eq]
          exact hpending.1
        · rw [hcopied.addresses.url_eq, hcopied.addresses.url_eq]
          exact hhost
      · exact .inl (if_neg hm)
    · have hown' : ownPassword (copyInto s.1 name (endpoint place (view legacy p) parent)) name =
          some (endpoint place (view legacy p) parent).password := by rw [hcopy, if_pos rfl]
      rw [formerOwn_of_ne hown' hpass]
      exact Option.some_ne_none _
  · rw [if_neg fun h => hcond ⟨h.1, blank_iff.mp h.2⟩]
    exact ⟨.refl, fun hsome hnone => hcond ⟨hsome, hnone⟩⟩

/-! ## Rounds -/

/-- A batch of names that are pending since the round began: copies are made, of each that has a section. -/
theorem foldl_convert {s : Ini × List Name} {batch : List Name} (hcopied : Copied place legacy p s.1)
    (hpending : ∀ name ∈ batch, Pending place legacy p name) :
    Copied place legacy s.1 (batch.foldl (convert legacy (resolve place (view legacy p))) s).1 ∧
      ∀ name ∈ batch, (p.sections.get (passwordKey name).1).isSome = true →
        formerOwn legacy (batch.foldl (convert legacy (resolve place (view legacy p))) s).1 name ≠ none := by
  induction batch generalizing s with
  | nil => exact ⟨.refl, nofun⟩
  | cons name batch ih =>
    obtain ⟨hstep, hdone⟩ := convert_pending hcopied (hpending name List.mem_cons_self)
    obtain ⟨hrest, hall⟩ := ih (hcopied.trans hstep) fun m hm => hpending m (List.mem_cons_of_mem name hm)
    refine ⟨hstep.trans hrest, fun m hm hsec => ?_⟩
    rcases List.mem_cons.mp hm with rfl | hm
    · have hfirst := hdone hsec
      rw [List.foldl_cons, hrest.formerOwn_of_some hfirst]
      exact hfirst
    · exact hall m hm hsec

/-- The names that are done have a password of their own. -/
def Done (legacy : Bool) (s : Ini × List Name) : Prop := ∀ name ∈ s.2, formerOwn legacy s.1 name ≠ none

theorem convert_snd {s : Ini × List Name} {res : Map Name Endpoint} :
    (convert legacy res s name).2 = s.2 ∨
      ((convert legacy res s name).2 = s.2 ++ [name] ∧ (s.1.sections.get (passwordKey name).1).isSome = true) := by
  unfold convert
  split
  · exact .inl rfl
  · next parent _ =>
    dsimp only
    split_ifs with hblank hcond
    · exact .inl rfl
    · exact .inr ⟨rfl, hcond.1⟩
    · exact .inl rfl

theorem done_foldl {s : Ini × List Name} {batch : List Name} (hdone : Done legacy s)
    (hcopied : Copied place legacy p s.1) (hpending : ∀ name ∈ batch, Pending place legacy p name) :
    Done legacy (batch.foldl (convert legacy (resolve place (view legacy p))) s) := by
  induction batch generalizing s with
  | nil => exact hdone
  | cons name batch ih =>
    obtain ⟨hstep, hnew⟩ := convert_pending hcopied (hpending name List.mem_cons_self)
    have hkeep : ∀ m ∈ s.2, formerOwn legacy
        (convert legacy (resolve place (view legacy p)) s name).1 m ≠ none := by
      intro m hm
      rw [hstep.formerOwn_of_some (hdone m hm)]
      exact hdone m hm
    refine ih (fun m hm => ?_) (hcopied.trans hstep) fun m hm => hpending m (List.mem_cons_of_mem name hm)
    rcases @convert_snd legacy name s (resolve place (view legacy p)) with hsame | ⟨hmore, hsec⟩
    · exact hkeep m (hsame ▸ hm)
    · rcases List.mem_append.mp (hmore ▸ hm) with hm | hm
      · exact hkeep m hm
      · rw [List.mem_singleton.mp hm]
        exact hnew (hcopied.sections _ ▸ hsec)

/-- The batch of a round: what is pending. -/
theorem mem_batch {s : Ini × List Name} (hdone : Done legacy s) :
    name ∈ (pendingConversions place s.1 legacy).filter (fun name => name ∉ s.2) ↔
      Pending place legacy s.1 name := by
  rw [List.mem_filter, mem_pendingConversions]
  refine ⟨And.left, fun h => ⟨h, decide_eq_true fun hmem => ?_⟩⟩
  exact hdone name hmem h.spec.1

theorem round_spec {s : Ini × List Name} (hdone : Done legacy s) :
    Copied place legacy s.1 (round place legacy s).1 ∧ Done legacy (round place legacy s) ∧
      ∀ name, Pending place legacy s.1 name → (s.1.sections.get (passwordKey name).1).isSome = true →
        formerOwn legacy (round place legacy s).1 name ≠ none := by
  have hbatch : ∀ name ∈ (pendingConversions place s.1 legacy).filter (fun name => name ∉ s.2),
      Pending place legacy s.1 name := fun name hname => (mem_batch hdone).mp hname
  obtain ⟨hcopied, hall⟩ := foldl_convert (s := s) .refl hbatch
  exact ⟨hcopied, done_foldl hdone .refl hbatch, fun name hpending => hall name ((mem_batch hdone).mpr hpending)⟩

theorem rounds_spec {s : Ini × List Name} (hdone : Done legacy s) (k : ℕ) :
    Copied place legacy s.1 (rounds place legacy k s).1 := by
  induction k generalizing s with
  | zero => exact .refl
  | succ k ih =>
    obtain ⟨hcopied, hdone', -⟩ := @round_spec place _ _ hdone
    unfold rounds
    split_ifs
    · exact .refl
    · exact hcopied.trans (ih hdone')

/-! ## Nothing left -/

/-- No copy is left to be made for an endpoint: it is not pending, or has no section. -/
def Settled (place : String → Option String) (legacy : Bool) (p : Ini) (name : Name) : Prop :=
  Pending place legacy p name → (p.sections.get (passwordKey name).1).isSome = false

/-- What is pending after copies was pending before, if its parent had a password. -/
theorem Pending.of_copied (hcopied : Copied place legacy p p') (h : Pending place legacy p' name)
    (hparent : inheritsFrom name = some parent)
    (hpass : (endpoint place (view legacy p) parent).password ≠ "") : Pending place legacy p name := by
  obtain ⟨hown, parent', hinherits, -, -, -, hurl, hhost⟩ := h.spec
  obtain rfl := Option.some.inj (hparent.symm.trans hinherits)
  rw [hcopied.addresses.url_eq] at hurl hhost
  rw [hcopied.addresses.url_eq] at hhost
  have hown' : formerOwn legacy p name = none := by
    by_contra hsome
    rw [hcopied.formerOwn_of_some hsome] at hown
    exact hsome hown
  refine ⟨hcopied.addresses.names_eq ▸ h.1, ?_⟩
  rw [(endpoint_withheld (ownPassword_view.trans hown') hparent hpass
    (by rw [sameAddresses_view.url_eq]; exact hurl)
    (by rw [sameAddresses_view.url_eq, sameAddresses_view.url_eq]; exact hhost)).2.1]
  exact Option.some_ne_none _

/-- An endpoint without a parent keeps its password. -/
theorem Copied.password_root (hcopied : Copied place legacy p p') (hroot : inheritsFrom name = none) :
    (endpoint place (view legacy p') name).password = (endpoint place (view legacy p) name).password := by
  have hsame : ownPassword p' name = ownPassword p name := by
    rcases hcopied.own name with hsame | hcopy
    · exact hsame
    · obtain ⟨parent, hparent, -⟩ := hcopy.parent
      rw [hroot] at hparent
      cases hparent
  have hformer : formerOwn legacy p' name = formerOwn legacy p name := by rw [formerOwn, formerOwn, hsame]
  have hview := @ownPassword_view legacy p name
  have hview' := @ownPassword_view legacy p' name
  cases hown : formerOwn legacy p name with
  | some v =>
    rw [(endpoint_of_own (hview.trans hown)).1, (endpoint_of_own (hview'.trans (hformer.trans hown))).1]
  | none =>
    rw [(endpoint_of_root (hview.trans hown) hroot).1,
      (endpoint_of_root (hview'.trans (hformer.trans hown)) hroot).1]

/-- A server whose copy is made, if one is to be made, has the password that it will have. -/
theorem Copied.password_server {n : ℕ} (hcopied : Copied place legacy p p')
    (hsettled : Settled place legacy p (.server n))
    (hpass : (endpoint place (view legacy p') (.server n)).password ≠ "") :
    (endpoint place (view legacy p) (.server n)).password ≠ "" := by
  have hkea := hcopied.password_root (show inheritsFrom .kea = none from rfl)
  have hview := @ownPassword_view legacy p (.server n)
  have hview' := @ownPassword_view legacy p' (.server n)
  rcases hcopied.own (.server n) with hsame | hcopy
  · have hformer : formerOwn legacy p' (.server n) = formerOwn legacy p (.server n) := by
      rw [formerOwn, formerOwn, hsame]
    cases hown : formerOwn legacy p (.server n) with
    | some v =>
      rw [(endpoint_of_own (hview'.trans (hformer.trans hown))).1] at hpass
      rwa [(endpoint_of_own (hview.trans hown)).1]
    | none =>
      have habsent := hview.trans hown
      have habsent' := hview'.trans (hformer.trans hown)
      have hurl : (endpoint place (view legacy p') (.server n)).url =
          (endpoint place (view legacy p) (.server n)).url := by
        rw [sameAddresses_view.url_eq, sameAddresses_view.url_eq, hcopied.addresses.url_eq]
      have hkeaUrl : (endpoint place (view legacy p') .kea).url =
          (endpoint place (view legacy p) .kea).url := by
        rw [sameAddresses_view.url_eq, sameAddresses_view.url_eq, hcopied.addresses.url_eq]
      by_cases hblank : (endpoint place (view legacy p') .kea).password = "" ∨
          (endpoint place (view legacy p') (.server n)).url = ""
      · exact absurd (endpoint_blank habsent' rfl hblank).1 hpass
      · push Not at hblank
        cases hhost : sameHost place (endpoint place (view legacy p') .kea).url
            (endpoint place (view legacy p') (.server n)).url with
        | false => exact absurd (endpoint_withheld habsent' rfl hblank.1 hblank.2 hhost).1 hpass
        | true =>
          rw [hkeaUrl, hurl] at hhost
          rw [hkea] at hblank
          rw [hurl] at hblank
          rw [(endpoint_inherits habsent rfl hblank.1 hblank.2 hhost).1]
          exact hblank.1
  · -- the copy was to be made already
    exfalso
    obtain ⟨parent, hparent, hhost, -⟩ := hcopy.parent
    obtain rfl := Option.some.inj hparent
    have habsent := hview.trans hcopy.absent
    have hformer := hcopy.nonblank
    rw [former_of_parent hcopy.absent rfl] at hformer
    have hkeaPass : (endpoint place (view legacy p) .kea).password ≠ "" := by
      have hkeaView := @ownPassword_view legacy p .kea
      cases hown : formerOwn legacy p .kea with
      | some v =>
        rw [(endpoint_of_own (hkeaView.trans hown)).1, ← former_of_own hown]
        exact hformer
      | none => exact absurd (former_of_root hown rfl) hformer
    have hpending : Pending place legacy p (.server n) := by
      refine ⟨hcopy.mem, ?_⟩
      rw [(endpoint_withheld habsent rfl hkeaPass (by rw [sameAddresses_view.url_eq]; exact hcopy.url)
        (by rw [sameAddresses_view.url_eq, sameAddresses_view.url_eq]; exact hhost)).2.1]
      exact Option.some_ne_none _
    have hsec := hcopy.sec
    rw [hsettled hpending] at hsec
    cases hsec

/-- A round settles the endpoints whose parents have none themselves. -/
theorem settled_of_round {s : Ini × List Name} (hdone : Done legacy s)
    (hcopied : Copied place legacy (round place legacy s).1 p) (hparent : inheritsFrom name = some parent)
    (hpass : (endpoint place (view legacy p) parent).password ≠ "" →
      (endpoint place (view legacy s.1) parent).password ≠ "") : Settled place legacy p name := by
  intro hpending
  obtain ⟨hround, -, hall⟩ := @round_spec place _ _ hdone
  obtain ⟨hown, parent', hinherits, -, -, hparentPass, -⟩ := hpending.spec
  obtain rfl := Option.some.inj (hparent.symm.trans hinherits)
  have hbefore := hpending.of_copied (hround.trans hcopied) hparent (hpass hparentPass)
  by_contra hsec
  rw [Bool.not_eq_false, hcopied.sections, hround.sections] at hsec
  have hmade := hall name hbefore hsec
  rw [hcopied.formerOwn_of_some hmade] at hown
  exact hmade hown

/-- After the rounds no copy is left to be made. -/
theorem settled_rounds (p : Ini) (name : Name) :
    Settled place legacy (rounds place legacy 3 (p, [])).1 name := by
  have hdone : Done legacy (p, []) := nofun
  -- a batch that is empty leaves nothing pending
  have hempty : ∀ s : Ini × List Name, Done legacy s →
      (pendingConversions place s.1 legacy).filter (fun name => name ∉ s.2) = [] →
        Settled place legacy s.1 name := by
    intro s hs hbatch hpending
    have hmem := (mem_batch hs).mpr hpending
    rw [hbatch] at hmem
    cases hmem
  obtain ⟨hcopied₁, hdone₁, -⟩ := @round_spec place _ _ hdone
  obtain ⟨hcopied₂, hdone₂, -⟩ := @round_spec place _ _ hdone₁
  unfold rounds
  split_ifs with hfirst
  · exact hempty (p, []) hdone hfirst
  · unfold rounds
    split_ifs with hsecond
    · exact hempty _ hdone₁ hsecond
    · have hlast := @rounds_spec place _ _ hdone₂ 1
      -- the servers are settled by the first round, their daemons by the second
      have hroot : ∀ {q name parent}, Copied place legacy (round place legacy (p, [])).1 q →
          inheritsFrom name = some parent → inheritsFrom parent = none → Settled place legacy q name := by
        intro q name parent hq hparent hgrand
        refine settled_of_round hdone hq hparent fun hpass => ?_
        rwa [(hcopied₁.trans hq).password_root hgrand] at hpass
      cases hparent : inheritsFrom name with
      | none =>
        intro hpending
        obtain ⟨-, parent, hinherits, -⟩ := hpending.spec
        rw [hparent] at hinherits
        cases hinherits
      | some parent =>
        cases hgrand : inheritsFrom parent with
        | none => exact hroot (hcopied₂.trans hlast) hparent hgrand
        | some grand =>
          obtain ⟨n, rfl⟩ : ∃ n, parent = .server n := by
            cases name with
            | serverV6 n => exact ⟨n, (Option.some.inj hparent).symm⟩
            | serverD2 n => exact ⟨n, (Option.some.inj hparent).symm⟩
            | kea => cases hparent
            | keaDb => cases hparent
            | jenDb => cases hparent
            | _ =>
              obtain rfl := Option.some.inj hparent
              cases hgrand
          exact settled_of_round hdone₁ hlast hparent fun hpass =>
            (hcopied₂.trans hlast).password_server (hroot .refl rfl rfl) hpass

end JenKea.Credentials
