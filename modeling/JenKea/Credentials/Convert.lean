import JenKea.Credentials.Preserves

/-!
# The conversion, once

The marker and the copies are one write, which the writer does not refuse for them, and the file that it
leaves reads back as what was written. So the old reading is preserved but for the endpoints that lose their
password, and a second run finds the marker and changes nothing.
-/

namespace JenKea.Credentials

variable {place : String → Option String} {legacy : Bool} {p f : Ini} {name : Name}

/-! ## The marker -/

theorem value_ensure {sec s key : String} (h : s ≠ sec) : value (ensure p sec) s key = value p s key := by
  unfold ensure
  split_ifs
  · rfl
  · unfold value
    dsimp only
    rw [Map.get_put, if_neg h]

theorem value_mark {sec key : String} (h : sec ≠ "jen") : value (mark p) sec key = value p sec key := by
  rw [mark, value_set, if_neg fun hsec => h hsec.2.1, value_ensure h]

theorem isSome_mark {sec : String} (h : sec ≠ "jen") :
    ((mark p).sections.get sec).isSome = (p.sections.get sec).isSome := by
  rw [mark, isSome_sections_set]
  unfold ensure
  split_ifs
  · rfl
  · dsimp only
    rw [Map.get_put, if_neg h]

theorem value_marker : value (mark p) "jen" "credential_model" = some "explicit" := by
  have hsec : ((ensure p "jen").sections.get "jen").isSome = true := by
    unfold ensure
    split_ifs with hsome
    · exact hsome
    · dsimp only
      rw [Map.get_put, if_pos rfl]
      rfl
  rw [mark, value_set, if_pos ⟨hsec, rfl, rfl⟩]

theorem explicit_of_value (h : value p "jen" "credential_model" = some "explicit") :
    modelMarker p = .explicit := by
  unfold modelMarker
  rw [has_eq_value, get_eq_value, h]
  decide

theorem names_mark : names (mark p) = names p := by
  have hnumber : serverNumber "jen" = none := by decide
  have hensure : (ensure p "jen").sections.keys.filterMap serverNumber =
      p.sections.keys.filterMap serverNumber := by
    unfold ensure
    split_ifs with hsome
    · rfl
    · have hnot : "jen" ∉ p.sections.keys := fun hmem => hsome (Map.mem_keys.mp hmem)
      have hentries := Map.entries_put (v := Map.empty) hnot
      unfold Map.keys
      dsimp only
      rw [hentries, List.map_append, List.filterMap_append]
      simp [hnumber]
  unfold mark names serverNumbers
  rw [keys_set, hensure]

theorem sameAddresses_mark : SameAddresses p (mark p) := by
  refine ⟨names_mark, fun sec hsec key _ => ?_, fun sec hsec key _ fallback => ?_⟩
  · rw [has_eq_value, has_eq_value, value_mark hsec]
  · rw [get_eq_value, get_eq_value, value_mark hsec]

theorem passwordKey_ne_jen : (passwordKey name).1 ≠ "jen" := by
  have hserver : ∀ n, serverSection n ≠ "jen" := by
    intro n heq
    have htrue := isServerSection_serverSection n
    rw [heq] at htrue
    exact absurd htrue (by decide)
  cases name <;> simp [passwordKey, hserver]

theorem ownPassword_mark : ownPassword (mark p) name = ownPassword p name := by
  rw [ownPassword_eq_value, ownPassword_eq_value, value_mark passwordKey_ne_jen]

theorem formerOwn_mark : formerOwn legacy (mark p) name = formerOwn legacy p name := by
  rw [formerOwn, formerOwn, ownPassword_mark]

theorem former_mark : former legacy (mark p) name = former legacy p name := by
  induction name using inheritsFrom_induction with
  | h name ih =>
    rw [former_eq, former_eq, formerOwn_mark]
    cases hparent : inheritsFrom name with
    | none => rfl
    | some parent =>
      dsimp only
      rw [ih parent hparent]

theorem loses_mark : Loses place legacy (mark p) name ↔ Loses place legacy p name := by
  have hsec := isSome_mark (p := p) (@passwordKey_ne_jen name)
  unfold Loses
  simp only [sameAddresses_mark.url_eq, formerOwn_mark, former_mark, ownPassword_mark, hsec]

/-! ## What is lost -/

/-- After the copies an endpoint with an address is sent what it was, unless it loses its password. -/
theorem password_iff (hcopied : Copied place legacy p f) (hsettled : ∀ name, Settled place legacy f name)
    (hmem : name ∈ names p) (hurl : (endpoint place p name).url ≠ "") :
    (endpoint place f name).password = former legacy p name ↔ ¬ Loses place legacy p name := by
  unfold Loses
  cases name with
  | kea => simp [password_root hcopied (show inheritsFrom .kea = none from rfl)]
  | keaDb => simp [password_root hcopied (show inheritsFrom .keaDb = none from rfl)]
  | jenDb => simp [password_root hcopied (show inheritsFrom .jenDb = none from rfl)]
  | kea6 =>
    rw [password_child hcopied (hsettled _) rfl rfl hmem hurl]
    simp [hurl]
  | d2 =>
    rw [password_child hcopied (hsettled _) rfl rfl hmem hurl]
    simp [hurl]
  | kea6Db =>
    rw [password_child hcopied (hsettled _) rfl rfl hmem hurl]
    simp [hurl]
  | server n => simp [password_server hcopied (hsettled _) hmem fun h => hurl h.2]
  | serverV6 n =>
    rw [password_daemon hcopied hsettled (.inl rfl) hmem hurl]
    simp [hurl]
  | serverD2 n =>
    rw [password_daemon hcopied hsettled (.inr rfl) hmem hurl]
    simp [hurl]

/-- What the conversion makes of a configuration without a marker. -/
theorem applied_spec (alreadyConverted : Bool) (hmarker : modelMarker p = .absent) :
    Copied place (!alreadyConverted) (mark p) (applied place alreadyConverted p).1 ∧
      ∀ name, Settled place (!alreadyConverted) (applied place alreadyConverted p).1 name := by
  unfold applied
  rw [if_neg (not_not.mpr hmarker)]
  split_ifs with hnothing
  · refine ⟨.refl, fun name hpending => ?_⟩
    have hmem := mem_pendingConversions.mpr hpending
    rw [hnothing.1, Bool.not_true, hnothing.2] at hmem
    cases hmem
  · have hdone : Done (!alreadyConverted) (mark p, []) := nofun
    exact ⟨rounds_spec hdone 3, settled_rounds (mark p)⟩

/-- The two readings of an endpoint differ only where a blank of old stands in its own key. -/
theorem former_congr (h : (passwordKey name).2 ∉ legacyBlankKeys ∨ ownPassword p name ≠ some "") :
    former true p name = former false p name := by
  induction name using inheritsFrom_induction with
  | h name ih =>
    have hown : formerOwn true p name = formerOwn false p name := by
      unfold formerOwn
      rw [if_neg fun hblank => h.elim (fun h => h hblank.2.1) (fun h => h hblank.2.2),
        if_neg fun hfalse => Bool.false_ne_true hfalse.1]
    rw [former_eq, former_eq, hown]
    cases hparent : inheritsFrom name with
    | none => rfl
    | some parent =>
      have hkey : (passwordKey parent).2 ∉ legacyBlankKeys := by
        cases name with
        | kea => cases hparent
        | keaDb => cases hparent
        | jenDb => cases hparent
        | _ => obtain rfl := Option.some.inj hparent; simp [passwordKey, legacyBlankKeys]
      dsimp only
      rw [ih parent hparent (.inl hkey)]

/-- A blank that counts as an answer is one after the copies too. -/
theorem former_of_password (hcopied : Copied place legacy p f)
    (h : (endpoint place f name).password = former true p name) :
    former true p name = former legacy p name := by
  cases legacy with
  | true => rfl
  | false =>
    by_cases hblank : (passwordKey name).2 ∉ legacyBlankKeys ∨ ownPassword p name ≠ some ""
    · exact former_congr hblank
    · push Not at hblank
      have hown : formerOwn false p name = some "" := by
        rw [formerOwn, if_neg fun hfalse => Bool.false_ne_true hfalse.1, hblank.2]
      have hstays : ownPassword f name = some "" := by
        rw [hcopied.own_of_some (by rw [hown]; exact Option.some_ne_none _), hblank.2]
      rw [former_of_own hown, ← h, (endpoint_of_own hstays).1]

/-- The old reading is preserved just where no endpoint loses its password, and none has a blank of old that
counts as an answer. -/
theorem preserves_applied (alreadyConverted : Bool) (hmarker : modelMarker p = .absent) :
    Preserves place p (applied place alreadyConverted p).1 ↔
      ∀ name ∈ names p, ¬ Loses place (!alreadyConverted) p name ∧ ((endpoint place p name).url ≠ "" →
        former true p name = former (!alreadyConverted) p name) := by
  obtain ⟨hcopied, hsettled⟩ := @applied_spec place _ alreadyConverted hmarker
  have haddresses := sameAddresses_mark.trans hcopied.addresses
  have hiff : ∀ name ∈ names p, (endpoint place p name).url ≠ "" →
      ((endpoint place (applied place alreadyConverted p).1 name).password =
        former (!alreadyConverted) p name ↔ ¬ Loses place (!alreadyConverted) p name) := by
    intro name hmem hurl
    rw [← former_mark, ← loses_mark]
    refine password_iff hcopied hsettled (by rw [names_mark]; exact hmem) ?_
    rw [sameAddresses_mark.url_eq]
    exact hurl
  constructor
  · intro h name hmem
    have hsame : (endpoint place p name).url ≠ "" →
        (endpoint place (applied place alreadyConverted p).1 name).password = former true p name := by
      intro hurl
      refine h (name, endpoint place _ name) (mem_resolve.mpr ⟨haddresses.names_eq ▸ hmem, rfl⟩) ?_
      rw [haddresses.url_eq]
      exact hurl
    have hreadings : (endpoint place p name).url ≠ "" →
        former true p name = former (!alreadyConverted) p name := by
      intro hurl
      rw [← former_mark, ← @former_mark (!alreadyConverted) _ _]
      exact former_of_password hcopied ((hsame hurl).trans former_mark.symm)
    refine ⟨fun hloses => ?_, hreadings⟩
    have hurl := hloses.1
    exact (hiff name hmem hurl).mp ((hsame hurl).trans (hreadings hurl)) hloses
  · intro h x hx hurl
    obtain ⟨hmem, heq⟩ := mem_resolve.mp hx
    rw [haddresses.names_eq] at hmem
    rw [heq] at hurl ⊢
    rw [haddresses.url_eq] at hurl
    obtain ⟨hkeeps, hreadings⟩ := h x.1 hmem
    exact ((hiff x.1 hmem hurl).mpr hkeeps).trans (hreadings hurl).symm

/-! ## What every copy keeps -/

/-- What a copy of a resolved endpoint's password keeps, the conversion keeps. -/
theorem rounds_induction {P : Ini → Prop} {s : Ini × List Name} (hp : P s.1)
    (hcopy : ∀ p q name parent, P p → P q →
      P (copyInto p name (endpoint place (view legacy q) parent))) (k : ℕ) :
    P (rounds place legacy k s).1 := by
  have hconvert : ∀ (q : Ini) (s : Ini × List Name) (name : Name), P q → P s.1 →
      P (convert legacy (resolve place (view legacy q)) s name).1 := by
    intro q s name hq hs
    unfold convert
    split
    · exact hs
    · next e he =>
      obtain ⟨parent, -, hget⟩ := Option.bind_eq_some_iff.mp he
      rw [get_resolve] at hget
      split_ifs at hget
      obtain rfl := Option.some.inj hget
      dsimp only
      split_ifs
      · exact hs
      · exact hcopy s.1 q name parent hs hq
      · exact hs
  have hround : ∀ s : Ini × List Name, P s.1 → P (round place legacy s).1 := by
    intro s hs
    unfold round
    have hfold : ∀ (batch : List Name) (s' : Ini × List Name), P s'.1 →
        P (batch.foldl (convert legacy (resolve place (view legacy s.1))) s').1 := by
      intro batch
      induction batch with
      | nil => exact fun s' hs' => hs'
      | cons name batch ih => exact fun s' hs' => ih _ (hconvert s.1 s' name hs hs')
    exact hfold _ s hs
  induction k generalizing s with
  | zero => exact hp
  | succ k ih =>
    unfold rounds
    split_ifs
    · exact hp
    · exact ih (hround s hp)

theorem applied_induction {P : Ini → Prop} (alreadyConverted : Bool) (hmarker : modelMarker p = .absent)
    (hp : P (mark p)) (hcopy : ∀ p q name parent, P p → P q →
      P (copyInto p name (endpoint place (view (!alreadyConverted) q) parent))) :
    P (applied place alreadyConverted p).1 := by
  unfold applied
  rw [if_neg (not_not.mpr hmarker)]
  split_ifs
  · exact hp
  · exact rounds_induction hp hcopy 3

/-- The keys that a copy writes. -/
theorem copied_keys {P : String → Prop} (hpass : ∀ key ∈ ["api_pass", "password", "api6_pass", "api_d2_pass"],
    P key ∧ P (key ++ "_shared")) (huser : ∀ key ∈ ["api_user", "user", "api6_user", "api_d2_user"], P key)
    (name : Name) : P (passwordKey name).2 ∧ P ((passwordKey name).2 ++ "_shared") ∧ P (userKey name).2 := by
  obtain ⟨hkey, hshared⟩ := hpass _ (@passwordKey_mem name)
  refine ⟨hkey, hshared, huser _ ?_⟩
  cases name <;> simp [userKey, passwordKey]

/-- No copy touches the marker. -/
theorem marker_applied (alreadyConverted : Bool) (hmarker : modelMarker p = .absent) :
    modelMarker (applied place alreadyConverted p).1 = .explicit := by
  refine explicit_of_value (applied_induction (P := fun q => value q "jen" "credential_model" = some "explicit")
    alreadyConverted hmarker value_marker fun q _ name parent hq _ => ?_)
  obtain ⟨hkey, hshared, huser⟩ := copied_keys (P := fun key => "credential_model" ≠ key) (by decide)
    (by decide) name
  rw [copyInto_eq]
  split_ifs
  · rw [value_set, if_neg fun h => huser h.2.2, value_set, if_neg fun h => hshared h.2.2, value_set,
      if_neg fun h => hkey h.2.2, hq]
  · rw [value_set, if_neg fun h => hshared h.2.2, value_set, if_neg fun h => hkey h.2.2, hq]

/-! ## What a file holds -/

/-- A key that may stand in a file with any value that may. -/
def isPlainKey (key : String) : Bool :=
  key ≠ "" ∧ ('\n' ∉ key.toList ∧ '\r' ∉ key.toList) ∧ Ini.Trimmed key.toList ∧
    Ini.isComment key.toList = false ∧ (key.toList.all fun c => !Ini.isDelimiter c) ∧
      key.toLower = key ∧ key.toList.head? ≠ some '['

theorem regularOption_of_key {key v : String} (hkey : isPlainKey key = true)
    (hv : Ini.RegularValue v.toList) : Ini.RegularOption key v.toList := by
  obtain ⟨hne, hline, htrimmed, hcomment, hdelimiter, hlower, hhead⟩ := of_decide_eq_true hkey
  have hnil : key.toList ≠ [] := mt String.toList_eq_nil_iff.mp hne
  have hall : ∀ c ∈ key.toList, Ini.isDelimiter c = false := fun c hc => by
    have hc := List.all_eq_true.mp hdelimiter c hc
    rwa [Bool.not_eq_true'] at hc
  refine ⟨hne, hline, htrimmed, hcomment, hall, hlower, ?_, hv⟩
  obtain ⟨c, cs, hcs⟩ := List.exists_cons_of_ne_nil hnil
  rw [Ini.strip_line hnil htrimmed hv.trimmed_head, hcs]
  refine Ini.header_eq_none fun rest hrest => ?_
  rw [hcs, (List.cons.inj hrest).1] at hhead
  exact absurd rfl hhead

theorem regularValue_blank : Ini.RegularValue "".toList := by decide

theorem regularValue_of_value {sec key v : String} (h : Ini.Regular p) (hv : value p sec key = some v) :
    Ini.RegularValue v.toList := by
  unfold value at hv
  obtain ⟨options, hoptions, hvalue⟩ := Option.bind_eq_some_iff.mp hv
  cases hget : options.get key with
  | some w =>
    rw [hget] at hvalue
    obtain rfl := Option.some.inj hvalue
    exact ((h.sections (sec, options) (Map.mem_entries.mpr hoptions)).regular (key, w)
      (Map.mem_entries.mpr hget)).regular
  | none =>
    rw [hget] at hvalue
    exact (h.defaults (key, v) (Map.mem_entries.mpr hvalue)).regular

theorem regularValue_get {sec key : String} (h : Ini.Regular p) :
    Ini.RegularValue (get p sec key "").toList := by
  rw [get_eq_value]
  cases hv : value p sec key with
  | none => exact regularValue_blank
  | some v => exact regularValue_of_value h hv

theorem regular_view (h : Ini.Regular p) : Ini.Regular (view legacy p) := by
  unfold view
  split_ifs
  · refine ⟨nofun, fun x hx => ?_, fun hmem => h.noDefault ?_⟩
    · obtain ⟨y, hy, rfl⟩ := List.mem_map.mp hx
      have hregular := h.sections y hy
      refine ⟨hregular.nonempty, hregular.oneLine, fun z hz => ?_⟩
      have hnodup : (((items p y.2).entries.filter fun x => !isLegacyBlank y.1 x.1 x.2).map
          Prod.fst).Nodup := (items p y.2).nodup.sublist (List.filter_sublist.map _)
      have hfilter := (Map.get_ofList hnodup).mp (Map.mem_entries.mp hz)
      have hget : (items p y.2).get z.1 = some z.2 :=
        Map.mem_entries.mp (List.mem_of_mem_filter hfilter)
      rw [items, Map.get_putAll_entries] at hget
      rcases Option.or_eq_some_iff.mp hget with hown | ⟨-, hdefault⟩
      · exact hregular.regular z (Map.mem_entries.mpr hown)
      · exact h.defaults z (Map.mem_entries.mpr hdefault)
    · obtain ⟨x, hx, hname⟩ := List.mem_map.mp hmem
      obtain ⟨y, hy, rfl⟩ := List.mem_map.mp hx
      exact List.mem_map.mpr ⟨y, hy, hname⟩
  · exact h

/-- The passwords and users of the endpoints are values of the file, or blank. -/
theorem regularValue_endpoint (h : Ini.Regular p) :
    Ini.RegularValue (endpoint place p name).password.toList ∧
      Ini.RegularValue (endpoint place p name).user.toList := by
  induction name using inheritsFrom_induction with
  | h name ih =>
    cases hparent : inheritsFrom name with
    | none =>
      obtain ⟨url, hroot⟩ := @endpoint_eq_root place p _ hparent
      rw [hroot]
      exact ⟨regularValue_get h, regularValue_get h⟩
    | some parent =>
      obtain ⟨hpass, huser⟩ := ih parent hparent
      obtain ⟨url, http, urlOwn, hchild⟩ := @endpoint_eq_child place p _ _ hparent
      rw [hchild]
      constructor
      · have hpassword : (child place p name url (endpoint place p parent) http urlOwn).password =
            get p (passwordKey name).1 (passwordKey name).2 "" ∨
            (child place p name url (endpoint place p parent) http urlOwn).password =
              (endpoint place p parent).password ∨
            (child place p name url (endpoint place p parent) http urlOwn).password = "" := by
          unfold child inherit
          dsimp only
          by_cases hown : has p (passwordKey name).1 (passwordKey name).2 = true
          · rw [if_pos hown]
            exact .inl rfl
          · rw [if_neg hown]
            split_ifs
            · exact .inr (.inl rfl)
            · exact .inr (.inr rfl)
            · exact .inr (.inr rfl)
        rcases hpassword with heq | heq | heq
        · rw [heq]
          exact regularValue_get h
        · rw [heq]
          exact hpass
        · rw [heq]
          exact regularValue_blank
      · have heq : ∀ (name : Name) (url user ownValue : String) (own urlOwn : Bool) (e : Endpoint),
            (inherit place name url user own ownValue e urlOwn).user = user := by
          intro name url user ownValue own urlOwn e
          unfold inherit
          split_ifs <;> rfl
        unfold child
        dsimp only
        rw [heq]
        unfold user
        split_ifs
        · exact regularValue_get h
        · exact regularValue_blank
        · exact huser
        · exact regularValue_blank

theorem regular_set {sec key v : String} (h : Ini.Regular p) (hoption : Ini.RegularOption key v.toList) :
    Ini.Regular (set p sec key v) := by
  refine ⟨?_, ?_, ?_⟩
  · unfold set
    split <;> exact h.defaults
  · unfold set
    split
    · next options hoptions =>
      have hold := h.sections (sec, options) (Map.mem_entries.mpr hoptions)
      intro x hx
      have hget := Map.mem_entries.mp hx
      rw [Map.get_put] at hget
      split_ifs at hget with hsec
      · rw [hsec, ← Option.some.inj hget]
        refine ⟨hold.nonempty, hold.oneLine, fun y hy => ?_⟩
        have hgetKey := Map.mem_entries.mp hy
        rw [Map.get_put] at hgetKey
        split_ifs at hgetKey with hkey
        · rw [hkey, ← Option.some.inj hgetKey]
          exact hoption
        · exact hold.regular y (Map.mem_entries.mpr hgetKey)
      · exact h.sections x (Map.mem_entries.mpr hget)
    · exact h.sections
  · rw [keys_set]
    exact h.noDefault

theorem regular_mark (h : Ini.Regular p) : Ini.Regular (mark p) := by
  refine regular_set ?_ (regularOption_of_key (by decide +kernel) (by decide))
  unfold ensure
  split_ifs with hsome
  · exact h
  · have hnot : "jen" ∉ p.sections.keys := fun hmem => hsome (Map.mem_keys.mp hmem)
    have hentries := Map.entries_put (v := Map.empty) hnot
    refine ⟨h.defaults, fun x hx => ?_, fun hmem => ?_⟩
    · dsimp only at hx
      rw [hentries] at hx
      rcases List.mem_append.mp hx with hx | hx
      · exact h.sections x hx
      · rw [List.mem_singleton.mp hx]
        exact ⟨by decide, by decide, (by rintro _ ⟨⟩)⟩
    · unfold Map.keys at hmem
      dsimp only at hmem
      rw [hentries, List.map_append, List.mem_append] at hmem
      rcases hmem with hmem | hmem
      · exact h.noDefault hmem
      · exact absurd (List.mem_singleton.mp hmem) (by decide)

/-- What the conversion makes of a configuration that a file holds, a file holds. -/
theorem regular_applied (alreadyConverted : Bool) (hmarker : modelMarker p = .absent)
    (h : Ini.Regular p) : Ini.Regular (applied place alreadyConverted p).1 := by
  refine applied_induction alreadyConverted hmarker (regular_mark h) fun q q' name parent hq hq' => ?_
  obtain ⟨hkey, hshared, huser⟩ := copied_keys (P := fun key => isPlainKey key = true)
    (by decide +kernel) (by decide +kernel) name
  obtain ⟨hpassValue, huserValue⟩ := @regularValue_endpoint place _ parent
    (@regular_view (!alreadyConverted) _ hq')
  have hone : Ini.RegularValue "1".toList := by decide
  have hboth := @regular_set _ ((passwordKey name).1) _ _ (@regular_set _ ((passwordKey name).1) _ _ hq
    (regularOption_of_key hkey hpassValue)) (regularOption_of_key hshared hone)
  rw [copyInto_eq]
  split_ifs
  · exact regular_set hboth (regularOption_of_key huser huserValue)
  · exact hboth

/-! ## The write -/

theorem fst_mem_of_mem_pairs {α : Type} {l : List α} {x : α × α} (h : x ∈ pairs l) : x.1 ∈ l := by
  induction l with
  | nil => cases h
  | cons y l ih =>
    unfold pairs at h
    rcases List.mem_append.mp h with h | h
    · obtain ⟨z, -, rfl⟩ := List.mem_map.mp h
      exact List.mem_cons_self
    · exact List.mem_cons_of_mem y (ih h)

/-- A write for which every password counts as typed is not refused for where a password goes. -/
theorem moveRefusal_of_typed {before after : Map Name Endpoint} {typed : List Name} {modeChanged : Bool}
    (h : ∀ x ∈ after.entries, x.1 ∈ typed) : moveRefusal place before after typed modeChanged = none := by
  unfold moveRefusal
  dsimp only
  refine Option.or_eq_none_iff.mpr ⟨List.findSome?_eq_none_iff.mpr fun x hx => ?_,
    List.findSome?_eq_none_iff.mpr fun x hx => ?_⟩
  · unfold judge
    rw [if_pos (h x hx)]
    split_ifs <;> rfl
  · have hmem : x.1.1 ∈ typed := h x.1 (List.mem_of_mem_filter (fst_mem_of_mem_pairs hx))
    unfold judgePair
    rw [if_pos (Or.inl hmem)]
    split_ifs <;> rfl

theorem names_applied (alreadyConverted : Bool) (hmarker : modelMarker p = .absent) :
    names (applied place alreadyConverted p).1 = names p := by
  obtain ⟨hcopied, -⟩ := @applied_spec place _ alreadyConverted hmarker
  exact hcopied.addresses.names_eq.trans names_mark

/-- The conversion's write is accepted, where no registered guard refuses it. -/
theorem writeParser_applied {checkIdentity : Ini → Ini → Option String} (alreadyConverted : Bool)
    {file : String} (hread : Ini.read file = some p) (hmarker : modelMarker p = .absent)
    (hcheck : checkIdentity p (applied place alreadyConverted p).1 = none) :
    writeParser place checkIdentity file (applied place alreadyConverted p).1 (names p) =
      .ok (Ini.write (applied place alreadyConverted p).1) := by
  refine writeParser_ok hread hcheck (moveRefusal_of_typed fun x hx => ?_)
  rw [← names_applied alreadyConverted hmarker]
  exact (mem_resolve.mp hx).1

theorem materialize_of_refused {checkIdentity : Ini → Ini → Option String} (alreadyConverted : Bool)
    {file sentence : String} (hread : Ini.read file = some p) (hmarker : modelMarker p = .absent)
    (hcheck : checkIdentity p (applied place alreadyConverted p).1 = some sentence) :
    materialize place checkIdentity alreadyConverted file = (file, none) := by
  unfold materialize writeParser
  rw [hread]
  dsimp only
  rw [hmarker, hcheck]
  rfl

theorem materialize_of_accepted {checkIdentity : Ini → Ini → Option String} (alreadyConverted : Bool)
    {file : String} (hread : Ini.read file = some p) (hmarker : modelMarker p = .absent)
    (hcheck : checkIdentity p (applied place alreadyConverted p).1 = none) :
    materialize place checkIdentity alreadyConverted file =
      (Ini.write (applied place alreadyConverted p).1, some (applied place alreadyConverted p).2) := by
  unfold materialize
  rw [hread]
  dsimp only
  rw [hmarker]
  dsimp only
  rw [writeParser_applied alreadyConverted hread hmarker hcheck]

/-- A file with the marker stays as it is. -/
theorem materialize_of_explicit {checkIdentity : Ini → Ini → Option String} (alreadyConverted : Bool)
    {file : String} (hread : Ini.read file = some p) (hmarker : modelMarker p = .explicit) :
    materialize place checkIdentity alreadyConverted file = (file, some []) := by
  unfold materialize
  rw [hread]
  dsimp only
  rw [hmarker]

/-- A run on a file without a marker leaves a file that has the marker and the copies together, and that a
second run does not change. What was sent before is preserved if and only if no endpoint loses its password,
and none has a blank of old where the database says that the file was converted already. Where a registered
guard refuses the write, the file stays as it is. -/
theorem materialize_iff (place : String → Option String) (checkIdentity : Ini → Ini → Option String)
    (alreadyConverted : Bool) (file : String) (p : Ini) (hread : Ini.read file = some p)
    (hmarker : modelMarker p = .absent) :
    if checkIdentity p (applied place alreadyConverted p).1 = none then
      ∃ p' done, materialize place checkIdentity alreadyConverted file = (Ini.write p', some done) ∧
        Ini.read (Ini.write p') = some p' ∧ modelMarker p' = .explicit ∧
        (∀ alreadyConverted', materialize place checkIdentity alreadyConverted' (Ini.write p') =
          (Ini.write p', some [])) ∧
        (Preserves place p p' ↔ ∀ name ∈ names p, ¬ Loses place (!alreadyConverted) p name ∧
          ((endpoint place p name).url ≠ "" →
            former true p name = former (!alreadyConverted) p name))
    else materialize place checkIdentity alreadyConverted file = (file, none) := by
  split_ifs with hcheck
  · have hregular := @regular_applied place _ alreadyConverted hmarker (Ini.regular_of_read hread)
    have hback := Ini.read_write hregular
    have hexplicit := @marker_applied place _ alreadyConverted hmarker
    exact ⟨_, _, materialize_of_accepted alreadyConverted hread hmarker hcheck, hback, hexplicit,
      fun alreadyConverted' => materialize_of_explicit alreadyConverted' hback hexplicit,
      preserves_applied alreadyConverted hmarker⟩
  · obtain ⟨sentence, hsentence⟩ := Option.ne_none_iff_exists'.mp hcheck
    exact materialize_of_refused alreadyConverted hread hmarker hsentence

/-- A server on another host, without a password, and its IPv6 daemon beside it. -/
def peerIni : Ini :=
  ⟨.empty, .ofList [("kea", .ofList [("api_url", "http://kea:8000"), ("api_pass", "k"),
      ("connection_mode", "direct")]),
    ("kea_server_2", .ofList [("api_url", "http://b:8000"), ("api6_url", "http://b:8006")])]⟩

/-- Such a server is sent what it was, and so is its daemon. -/
theorem preserves_peer : ∃ p' done, materialize plainHost (fun _ _ => none) false (Ini.write peerIni) =
    (Ini.write p', some done) ∧ Preserves plainHost peerIni p' := by
  have hread : Ini.read (Ini.write peerIni) = some peerIni := by decide +kernel
  have hmarker : modelMarker peerIni = .absent := by decide
  have h := materialize_iff plainHost (fun _ _ => none) false _ peerIni hread hmarker
  rw [if_pos rfl] at h
  obtain ⟨p', done, hfile, -, -, -, hpreserves⟩ := h
  refine ⟨p', done, hfile, hpreserves.mpr fun name hmem => ⟨?_, fun _ => rfl⟩⟩
  have hnames : names peerIni = [.kea, .kea6, .d2, .keaDb, .kea6Db, .jenDb, .server 2, .serverV6 2,
      .serverD2 2] := by decide
  have hkinds : ∀ name ∈ names peerIni,
      name ∈ [Name.kea6, .d2, .keaDb, .kea6Db, .jenDb, .serverD2 2] ∨
        name ∈ [Name.kea, .server 2, .serverV6 2] := by
    rw [hnames]
    decide
  have hblank : ∀ name ∈ [Name.kea6, .d2, .keaDb, .kea6Db, .jenDb, .serverD2 2],
      (endpoint plainHost peerIni name).url = "" := by decide +kernel
  have hdaemon : (endpoint plainHost peerIni (.server 2)).url ≠ "" ∧
      ownPassword peerIni (.serverV6 2) ≠ some "" := by decide
  rintro ⟨hurl, -, -, hmatch⟩
  rcases hkinds name hmem with hkind | hkind
  · exact hurl (hblank name hkind)
  · simp only [List.mem_cons, List.not_mem_nil, or_false] at hkind
    rcases hkind with rfl | rfl | rfl
    · exact hmatch
    · exact hmatch
    · dsimp only at hmatch
      exact hmatch.elim (fun h => hdaemon.1 h.2) fun h => hdaemon.2 h.1

/-- The same server, its IPv6 daemon with a blank of old. -/
def blankIni : Ini :=
  ⟨.empty, .ofList [("kea", .ofList [("api_url", "http://kea:8000"), ("api_pass", "k"),
      ("connection_mode", "direct")]),
    ("kea_server_2", .ofList [("api_url", "http://b:8000"), ("api6_url", "http://b:8006"),
      ("api6_pass", "")])]⟩

/-- The blank said "inherit": under the marker it says that there is no password. -/
theorem not_preserves_blank : ∃ p' done, materialize plainHost (fun _ _ => none) false
    (Ini.write blankIni) = (Ini.write p', some done) ∧ ¬ Preserves plainHost blankIni p' := by
  have hread : Ini.read (Ini.write blankIni) = some blankIni := by decide +kernel
  have hmarker : modelMarker blankIni = .absent := by decide
  have hmem : Name.serverV6 2 ∈ names (applied plainHost false blankIni).1 := by decide +kernel
  have hurl : (endpoint plainHost (applied plainHost false blankIni).1 (.serverV6 2)).url ≠ "" := by
    decide +kernel
  have hpass : (endpoint plainHost (applied plainHost false blankIni).1 (.serverV6 2)).password ≠
      former true blankIni (.serverV6 2) := by decide +kernel
  exact ⟨_, _, materialize_of_accepted false hread hmarker rfl,
    fun h => hpass (h (_, _) (mem_resolve.mpr ⟨hmem, rfl⟩) hurl)⟩

end JenKea.Credentials
