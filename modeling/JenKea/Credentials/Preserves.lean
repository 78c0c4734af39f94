import JenKea.Credentials.Copies
import JenKea.Lib.IniRegular

/-!
# What the conversion preserves

After the conversion an endpoint is sent what the old reading sent it, but for a few kinds of endpoints: a
daemon with a blank of old on its server's own host, a daemon of a server that has neither an address nor a
password, and a daemon without a section whose parent's address names no host.
-/

namespace JenKea.Credentials

variable {place : String → Option String} {legacy : Bool} {p p' f : Ini} {name parent : Name}

/-! ## Passwords in the view and as they stand -/

/-- The endpoints that are no server's daemons read the same in the view. -/
theorem password_view_eq (h : (passwordKey name).2 ∉ legacyBlankKeys) :
    (endpoint place (view legacy p) name).password = (endpoint place p name).password := by
  induction name using inheritsFrom_induction with
  | h name ih =>
    have hview := @ownPassword_view legacy p name
    rw [formerOwn_of_notMem h] at hview
    cases hown : ownPassword p name with
    | some v => rw [(endpoint_of_own (hview.trans hown)).1, (endpoint_of_own hown).1]
    | none =>
      have habsent := hview.trans hown
      cases hparent : inheritsFrom name with
      | none => rw [(endpoint_of_root habsent hparent).1, (endpoint_of_root hown hparent).1]
      | some parent =>
        have hkey : (passwordKey parent).2 ∉ legacyBlankKeys := by
          cases name with
          | kea => cases hparent
          | keaDb => cases hparent
          | jenDb => cases hparent
          | _ => obtain rfl := Option.some.inj hparent; simp [passwordKey, legacyBlankKeys]
        have hpassword := ih parent hparent hkey
        have hurl := @SameAddresses.url_eq place _ _ (@sameAddresses_view legacy p) name
        have hparentUrl := @SameAddresses.url_eq place _ _ (@sameAddresses_view legacy p) parent
        by_cases hblank : (endpoint place p parent).password = "" ∨ (endpoint place p name).url = ""
        · rw [(endpoint_blank hown hparent hblank).1, (endpoint_blank habsent hparent
            (by rw [hpassword, hurl]; exact hblank)).1]
        · push Not at hblank
          cases hhost : sameHost place (endpoint place p parent).url (endpoint place p name).url with
          | true =>
            rw [(endpoint_inherits hown hparent hblank.1 hblank.2 hhost).1,
              (endpoint_inherits habsent hparent (by rw [hpassword]; exact hblank.1)
                (by rw [hurl]; exact hblank.2) (by rw [hurl, hparentUrl]; exact hhost)).1, hpassword]
          | false =>
            rw [(endpoint_withheld hown hparent hblank.1 hblank.2 hhost).1,
              (endpoint_withheld habsent hparent (by rw [hpassword]; exact hblank.1)
                (by rw [hurl]; exact hblank.2) (by rw [hurl, hparentUrl]; exact hhost)).1]

/-- An endpoint without a key, with a parent that has a password on another host, is pending. -/
theorem pending_of_withheld (hmem : name ∈ names p) (hown : ownPassword p name = none)
    (hparent : inheritsFrom name = some parent) (hkey : (passwordKey parent).2 ∉ legacyBlankKeys)
    (hpass : (endpoint place p parent).password ≠ "") (hurl : (endpoint place p name).url ≠ "")
    (hhost : sameHost place (endpoint place p parent).url (endpoint place p name).url = false) :
    Pending place legacy p name := by
  have habsent := (@ownPassword_view legacy _ _).trans (@formerOwn_eq_none legacy _ _ hown)
  refine ⟨hmem, ?_⟩
  rw [(endpoint_withheld habsent hparent (by rw [password_view_eq hkey]; exact hpass)
    (by rw [sameAddresses_view.url_eq]; exact hurl)
    (by rw [sameAddresses_view.url_eq, sameAddresses_view.url_eq]; exact hhost)).2.1]
  exact Option.some_ne_none _

theorem isSome_of_value {sec key : String} (h : value p sec key ≠ none) :
    (p.sections.get sec).isSome = true := by
  unfold value at h
  cases hsec : p.sections.get sec with
  | none =>
    rw [hsec] at h
    exact absurd rfl h
  | some options => rfl

theorem isSome_of_own (h : ownPassword p name ≠ none) :
    (p.sections.get (passwordKey name).1).isSome = true := by
  rw [ownPassword_eq_value] at h
  exact isSome_of_value h

/-- A server that has an address has a section. -/
theorem isSome_of_serverUrl {n : ℕ} (h : (endpoint place p (.server n)).url ≠ "") :
    (p.sections.get (serverSection n)).isSome = true := by
  have heq : (endpoint place p (.server n)).url = get p (serverSection n) "api_url" "" := url_inherit
  rw [heq, get_eq_value] at h
  refine @isSome_of_value _ _ "api_url" fun hnone => h ?_
  rw [hnone]
  rfl

/-- A server's daemon that has an address has a section. -/
theorem isSome_of_daemonUrl {n : ℕ} (hname : name = .serverV6 n ∨ name = .serverD2 n)
    (h : (endpoint place p name).url ≠ "") : (p.sections.get (serverSection n)).isSome = true := by
  by_contra hsec
  have hserver : (server place p n).url = "" := by
    by_contra hne
    exact hsec (isSome_of_serverUrl hne)
  have hnone : ∀ key, value p (serverSection n) key = none := by
    intro key
    by_contra hsome
    exact hsec (isSome_of_value hsome)
  have hderived : (endpoint place p name).url = derivedUrl p name (server place p n) ∧
      (urlKey name).1 = serverSection n := by
    rcases hname with rfl | rfl
    · exact ⟨url_inherit, rfl⟩
    · exact ⟨url_inherit, rfl⟩
  refine h ?_
  rw [hderived.1, derivedUrl, hderived.2, has_eq_value, hnone, hserver]
  simp

/-- A password that the old reading did not count was blank. -/
theorem blank_of_formerOwn {v : String} (hown : ownPassword p name = some v)
    (hformer : formerOwn legacy p name = none) : v = "" := by
  by_contra hne
  rw [formerOwn_of_ne hown hne] at hformer
  cases hformer

/-! ## What a server is sent -/

/-- An endpoint without a parent is sent what it was. -/
theorem password_root (hcopied : Copied place legacy p f) (hroot : inheritsFrom name = none) :
    (endpoint place f name).password = former legacy p name := by
  have hkey : (passwordKey name).2 ∉ legacyBlankKeys := by
    cases name with
    | kea => simp [passwordKey, legacyBlankKeys]
    | keaDb => simp [passwordKey, legacyBlankKeys]
    | jenDb => simp [passwordKey, legacyBlankKeys]
    | _ => cases hroot
  rw [← hcopied.former_eq]
  cases hown : ownPassword f name with
  | some v => rw [(endpoint_of_own hown).1, former_of_own ((formerOwn_of_notMem hkey).trans hown)]
  | none =>
    rw [(endpoint_of_root hown hroot).1, former_of_root (formerOwn_eq_none hown) hroot]

/-- An endpoint next to one without a parent is sent what it was, if it has a section to copy to. -/
theorem password_child (hcopied : Copied place legacy p f) (hsettled : Settled place legacy f name)
    (hparent : inheritsFrom name = some parent) (hroot : inheritsFrom parent = none)
    (hmem : name ∈ names p) (hurl : (endpoint place p name).url ≠ "") :
    (endpoint place f name).password = former legacy p name ↔
      ¬ (formerOwn legacy p name = none ∧ former legacy p name ≠ "" ∧
        (p.sections.get (passwordKey name).1).isSome = false ∧
          sameHost place (endpoint place p parent).url (endpoint place p name).url = false) := by
  have hkeys : (passwordKey name).2 ∉ legacyBlankKeys ∧ (passwordKey parent).2 ∉ legacyBlankKeys := by
    cases name with
    | kea => cases hparent
    | keaDb => cases hparent
    | jenDb => cases hparent
    | serverV6 n => obtain rfl := Option.some.inj hparent; cases hroot
    | serverD2 n => obtain rfl := Option.some.inj hparent; cases hroot
    | _ => obtain rfl := Option.some.inj hparent; simp [passwordKey, legacyBlankKeys]
  cases hown : ownPassword f name with
  | some v =>
    rw [(endpoint_of_own hown).1]
    rcases hcopied.own name with hsame | hcopy
    · have hformer := (@formerOwn_of_notMem legacy _ _ hkeys.1).trans (hsame.symm.trans hown)
      rw [former_of_own hformer, hformer]
      simp
    · have hvalue : v = former legacy p name := Option.some.inj (hown.symm.trans hcopy.copied)
      simp [hvalue, hcopy.sec]
  | none =>
    have hown' : ownPassword p name = none := by
      rcases hcopied.own name with hsame | hcopy
      · exact hsame.symm.trans hown
      · exact absurd (hown.symm.trans hcopy.copied) (by rintro ⟨⟩)
    have hformer : former legacy p name = (endpoint place f parent).password := by
      rw [former_of_parent (formerOwn_eq_none hown') hparent, password_root hcopied hroot]
    rw [hformer]
    by_cases hpass : (endpoint place f parent).password = ""
    · rw [(endpoint_blank hown hparent (.inl hpass)).1]
      simp [hpass]
    · have hurl' : (endpoint place f name).url ≠ "" := by
        rw [hcopied.addresses.url_eq]
        exact hurl
      cases hhost : sameHost place (endpoint place f parent).url (endpoint place f name).url with
      | true =>
        rw [(endpoint_inherits hown hparent hpass hurl' hhost).1]
        rw [hcopied.addresses.url_eq, hcopied.addresses.url_eq] at hhost
        simp [hhost]
      | false =>
        have hpending := @pending_of_withheld _ legacy _ _ _ (hcopied.addresses.names_eq ▸ hmem) hown
          hparent hkeys.2 hpass hurl' hhost
        have hsec := hsettled hpending
        rw [hcopied.sections] at hsec
        rw [(endpoint_withheld hown hparent hpass hurl' hhost).1]
        rw [hcopied.addresses.url_eq, hcopied.addresses.url_eq] at hhost
        simp [formerOwn_eq_none hown', hpass, hsec, hhost]

/-- A server that has an address or a password of its own is sent what it was. -/
theorem password_server {n : ℕ} (hcopied : Copied place legacy p f)
    (hsettled : Settled place legacy f (.server n)) (hmem : Name.server n ∈ names p)
    (h : ¬ (ownPassword p (.server n) = none ∧ (endpoint place p (.server n)).url = "")) :
    (endpoint place f (.server n)).password = former legacy p (.server n) := by
  by_cases hurl : (endpoint place p (.server n)).url = ""
  · obtain ⟨v, hv⟩ := Option.ne_none_iff_exists'.mp fun hnone => h ⟨hnone, hurl⟩
    have hformer : formerOwn legacy p (.server n) = some v := by
      rw [formerOwn_of_notMem (by simp [passwordKey, legacyBlankKeys]), hv]
    have hown : ownPassword f (.server n) = some v := by
      rw [hcopied.own_of_some (by rw [hformer]; exact Option.some_ne_none _), hv]
    rw [(endpoint_of_own hown).1, former_of_own hformer]
  · refine (password_child hcopied hsettled rfl rfl hmem hurl).mpr fun hlost => ?_
    exact Bool.false_ne_true (hlost.2.2.1.symm.trans (isSome_of_serverUrl hurl))

/-- A server without an address and without a password of its own is sent none. -/
theorem password_server_blank {n : ℕ} (hcopied : Copied place legacy p f)
    (h : ownPassword p (.server n) = none ∧ (endpoint place p (.server n)).url = "") :
    (endpoint place f (.server n)).password = "" := by
  have hown : ownPassword f (.server n) = none := by
    rcases hcopied.own (.server n) with hsame | hcopy
    · exact hsame.trans h.1
    · exact absurd h.2 hcopy.url
  have hurl : (endpoint place f (.server n)).url = "" := by rw [hcopied.addresses.url_eq, h.2]
  exact (endpoint_blank hown rfl (.inr hurl)).1

/-- A server's daemon is sent what it was, but where its server has nothing to hand on, or is on its host
and a blank of old stands in between. -/
theorem password_daemon {n : ℕ} (hcopied : Copied place legacy p f)
    (hsettled : ∀ name, Settled place legacy f name) (hname : name = .serverV6 n ∨ name = .serverD2 n)
    (hmem : name ∈ names p) (hurl : (endpoint place p name).url ≠ "") :
    (endpoint place f name).password = former legacy p name ↔
      ¬ (formerOwn legacy p name = none ∧ former legacy p name ≠ "" ∧
        ((ownPassword p (.server n) = none ∧ (endpoint place p (.server n)).url = "") ∨
          (ownPassword p name = some "" ∧
            sameHost place (endpoint place p (.server n)).url (endpoint place p name).url = true))) := by
  have hparent : inheritsFrom name = some (.server n) := by
    rcases hname with rfl | rfl <;> rfl
  have hsecName : (passwordKey name).1 = serverSection n := by
    rcases hname with rfl | rfl <;> rfl
  have hserverKey : (passwordKey (.server n)).2 ∉ legacyBlankKeys := by simp [passwordKey, legacyBlankKeys]
  have hsec := isSome_of_daemonUrl hname hurl
  have hurl' : (endpoint place f name).url ≠ "" := by
    rw [hcopied.addresses.url_eq]
    exact hurl
  by_cases hformerOwn : formerOwn legacy p name = none
  · -- nothing of its own to read: what it is sent hangs on the server
    have hformer : former legacy p name = former legacy p (.server n) := former_of_parent hformerOwn hparent
    by_cases hblank : former legacy p (.server n) = ""
    · have hnone : (endpoint place f name).password = "" := by
        rcases hcopied.own name with hsame | hcopy
        · cases hown : ownPassword f name with
          | some v =>
            have hv := blank_of_formerOwn (hsame.symm.trans hown) hformerOwn
            rw [(endpoint_of_own hown).1, hv]
          | none =>
            refine (endpoint_blank hown hparent (.inl ?_)).1
            by_cases hreach : ownPassword p (.server n) = none ∧ (endpoint place p (.server n)).url = ""
            · exact password_server_blank hcopied hreach
            · rw [password_server hcopied (hsettled _) (parent_mem_names hparent hmem) hreach, hblank]
        · exact absurd (hformer.trans hblank) hcopy.nonblank
      simp [hnone, hformer, hblank]
    · by_cases hreach : ownPassword p (.server n) = none ∧ (endpoint place p (.server n)).url = ""
      · -- the server has nothing to hand on
        have hnone : (endpoint place f name).password = "" := by
          rcases hcopied.own name with hsame | hcopy
          · cases hown : ownPassword f name with
            | some v =>
              have hv := blank_of_formerOwn (hsame.symm.trans hown) hformerOwn
              rw [(endpoint_of_own hown).1, hv]
            | none => exact (endpoint_blank hown hparent (.inl (password_server_blank hcopied hreach))).1
          · obtain ⟨parent', hparent', -, hcan⟩ := hcopy.parent
            obtain rfl := Option.some.inj (hparent.symm.trans hparent')
            exact absurd hreach.2 (hcan.resolve_left (not_not.mpr hreach.1))
        have hne : "" ≠ former legacy p (.server n) := fun heq => hblank heq.symm
        rw [hnone, hformer]
        simp [hformerOwn, hblank, hreach.1, hreach.2, hne]
      · have hserver := password_server hcopied (hsettled _) (parent_mem_names hparent hmem) hreach
        have hpass : (endpoint place f (.server n)).password ≠ "" := hserver ▸ hblank
        have hhostEq : sameHost place (endpoint place f (.server n)).url (endpoint place f name).url =
            sameHost place (endpoint place p (.server n)).url (endpoint place p name).url := by
          rw [hcopied.addresses.url_eq, hcopied.addresses.url_eq]
        cases hown : ownPassword f name with
        | none =>
          have hown' : ownPassword p name = none := by
            rcases hcopied.own name with hsame | hcopy
            · exact hsame.symm.trans hown
            · exact absurd (hown.symm.trans hcopy.copied) (by rintro ⟨⟩)
          cases hhost : sameHost place (endpoint place f (.server n)).url (endpoint place f name).url with
          | true =>
            rw [(endpoint_inherits hown hparent hpass hurl' hhost).1, hserver, hformer]
            simp [hown', hreach]
          | false =>
            have hpending := @pending_of_withheld _ legacy _ _ _ (hcopied.addresses.names_eq ▸ hmem)
              hown hparent hserverKey hpass hurl' hhost
            have hnosec := hsettled name hpending
            rw [hcopied.sections, hsecName, hsec] at hnosec
            cases hnosec
        | some v =>
          rw [(endpoint_of_own hown).1]
          rcases hcopied.own name with hsame | hcopy
          · have hv : v = "" := by
              by_contra hne
              rw [formerOwn_of_ne (hsame.symm.trans hown) hne] at hformerOwn
              cases hformerOwn
            have hhost : sameHost place (endpoint place p (.server n)).url (endpoint place p name).url =
                true := by
              by_contra hother
              have hother' := Bool.eq_false_iff.mpr hother
              have hfown : formerOwn legacy f name = none := by
                rw [formerOwn, hsame, ← formerOwn, hformerOwn]
              have hpending : Pending place legacy f name := by
                refine ⟨hcopied.addresses.names_eq ▸ hmem, ?_⟩
                rw [(endpoint_withheld (ownPassword_view.trans hfown) hparent
                  (by rw [password_view_eq hserverKey]; exact hpass)
                  (by rw [sameAddresses_view.url_eq]; exact hurl')
                  (by rw [sameAddresses_view.url_eq, sameAddresses_view.url_eq, hhostEq]; exact hother')).2.1]
                exact Option.some_ne_none _
              have hnosec := hsettled name hpending
              rw [hcopied.sections, hsecName, hsec] at hnosec
              cases hnosec
            have hown' : ownPassword p name = some "" := by rw [← hsame, hown, hv]
            have hne : "" ≠ former legacy p (.server n) := fun heq => hblank heq.symm
            rw [hv, hformer]
            simp [hformerOwn, hblank, hown', hhost, hne]
          · have hvalue : v = former legacy p name := Option.some.inj (hown.symm.trans hcopy.copied)
            obtain ⟨parent', hparent', hhost, -⟩ := hcopy.parent
            obtain rfl := Option.some.inj (hparent.symm.trans hparent')
            simp [hvalue, hhost, hreach]
  · -- a password of its own stays
    obtain ⟨v, hv⟩ := Option.ne_none_iff_exists'.mp hformerOwn
    have hownp : ownPassword p name = some v := by
      unfold formerOwn at hv
      split_ifs at hv
      exact hv
    have hown := (hcopied.own_of_some hformerOwn).trans hownp
    rw [(endpoint_of_own hown).1, former_of_own hv]
    simp [hv]

end JenKea.Credentials
