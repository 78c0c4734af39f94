import JenKea.Subnets.OptionValues

/-!
# Canonical values

A value that Jen accepts is stored in its canonical form. The form is accepted, and its own canonical form, but for
a list of separators and no item, which is stored as nothing, and for hexadecimal digits behind a second `0x`, or
before a newline.
-/

namespace JenKea.Subnets

open Text

/-- The canonical form of a value is accepted, and its own canonical form. -/
def Kept (optType data : String) : Prop :=
  validate optType (normalize optType data) = none ∧
    normalize optType (normalize optType data) = normalize optType data

/-- A list has an item, and what is left of a hexadecimal value are hexadecimal digits. -/
def Plain (optType data : String) : Prop :=
  match OptType.ofName optType with
  | some .ipList | some .fqdnList | some .classlessRoutes => items (strip data) ≠ []
  | some .hex => ∀ c ∈ hexBody (strip data), isHexDigit c = true
  | _ => True

/-! ## Accepted values -/

section Accepted

variable {optType data : String} {type : OptType}

/-- A value that is accepted has a type, is not empty, and passes the check of the type. -/
theorem of_validate (h : validate optType data = none) :
    ∃ type, OptType.ofName optType = some type ∧ strip data ≠ "" ∧ type.check (strip data) = none := by
  unfold validate at h
  cases htype : OptType.ofName optType with
  | none =>
    rw [htype] at h
    cases h
  | some type =>
    rw [htype] at h
    dsimp only at h
    split_ifs at h with hempty
    exact ⟨type, rfl, hempty, h⟩

/-- A form that is not empty, not stripped of anything, accepted, and canonical, is kept. -/
theorem kept_of_canonical (htype : OptType.ofName optType = some type)
    (hform : type.canonical (strip data) = form) (hne : form ≠ "") (hstrip : strip form = form)
    (hcheck : type.check form = none) (hcanonical : type.canonical form = form) : Kept optType data := by
  have hnormal : normalize optType data = form := by
    unfold normalize
    rw [htype]
    exact hform
  unfold Kept
  rw [hnormal]
  constructor
  · unfold validate
    rw [htype, hstrip]
    exact (if_neg hne).trans hcheck
  · unfold normalize
    rw [htype, hstrip]
    exact hcanonical

/-- What is kept is not stored as nothing. -/
theorem Kept.ne_empty (h : Kept optType data) : normalize optType data ≠ "" := by
  obtain ⟨type, -, hne, -⟩ := of_validate h.1
  intro hempty
  rw [hempty] at hne
  exact hne rfl

end Accepted

/-! ## Lists -/

/-- The items of a list that is joined, where it has one. -/
theorem joined {list : List String} (h : ∀ item ∈ list, IsItem item) (hne : list ≠ []) :
    commaJoin list ≠ "" ∧ strip (commaJoin list) = commaJoin list ∧ items (commaJoin list) = list := by
  obtain ⟨item, rest, rfl⟩ := List.exists_cons_of_ne_nil hne
  obtain ⟨hempty, hstrip⟩ := strip_commaJoin h
  exact ⟨hempty, hstrip, items_commaJoin h⟩

/-! ## Routes -/

section Route

/-- An address has digits and dots. -/
theorem isSpace_of_parse {text : String} (h : (Ipv4.parse text).isSome) :
    ∀ c ∈ text.toList, isSpace c = false ∧ c ≠ ',' := by
  intro c hc
  rcases (Ipv4.chars_of_parse h).2 c hc with hdigit | rfl
  · refine ⟨isSpace_of_isDigit hdigit, ?_⟩
    rintro rfl
    exact absurd hdigit (by decide)
  · decide

/-- A digit is neither a blank nor a comma. -/
theorem isSpace_of_digits {cs : List Char} (h : cs.all Char.isDigit = true) :
    ∀ c ∈ cs, isSpace c = false ∧ c ≠ ',' := by
  intro c hc
  have hdigit := List.all_eq_true.mp h c hc
  refine ⟨isSpace_of_isDigit hdigit, ?_⟩
  rintro rfl
  exact absurd hdigit (by decide)

/-- A mask has digits and dots. -/
theorem isSpace_of_prefixOf {mask : String} (h : (Ipv4.prefixOf mask).isSome) :
    ∀ c ∈ mask.toList, isSpace c = false ∧ c ≠ ',' := by
  unfold Ipv4.prefixOf at h
  cases htext : Ipv4.prefixOfText mask with
  | some p =>
    unfold Ipv4.prefixOfText at htext
    dsimp only at htext
    split_ifs at htext with hdigits
    exact isSpace_of_digits hdigits.2.1
  | none =>
    rw [htext] at h
    cases hparse : Ipv4.parse mask with
    | none =>
      rw [hparse] at h
      cases h
    | some n => exact isSpace_of_parse (by rw [hparse]; rfl)

/-- A network has digits, dots and a slash. -/
theorem isSpace_of_parseNetwork {text : String} (h : (Ipv4.parseNetwork text).isSome) :
    ∀ c ∈ text.toList, isSpace c = false ∧ c ≠ ',' := by
  have hjoin : ['/'].intercalate (text.toList.splitOn '/') = text.toList :=
    List.intercalate_splitOn '/'
  unfold Ipv4.parseNetwork at h
  match hparts : text.toList.splitOn '/', hjoin with
  | [address], hjoin =>
    rw [hparts] at h
    rw [List.intercalate_singleton] at hjoin
    have haddress : (Ipv4.parse (String.ofList address)).isSome := by
      cases hparse : Ipv4.parse (String.ofList address) with
      | none => simp [hparse] at h
      | some n => rfl
    have hchars := isSpace_of_parse haddress
    rw [String.toList_ofList] at hchars
    exact hjoin ▸ hchars
  | [address, mask], hjoin =>
    rw [hparts] at h
    have hmask : (Ipv4.prefixOf (String.ofList mask)).isSome := by
      cases hmask : Ipv4.prefixOf (String.ofList mask) with
      | none => simp [hmask] at h
      | some p => rfl
    have haddress : (Ipv4.parse (String.ofList address)).isSome := by
      cases hparse : Ipv4.parse (String.ofList address) with
      | none =>
        obtain ⟨p, hp⟩ := Option.isSome_iff_exists.mp hmask
        simp [hp, hparse] at h
      | some n => rfl
    have hfront := isSpace_of_parse haddress
    have hback := isSpace_of_prefixOf hmask
    rw [String.toList_ofList] at hfront hback
    have htext : text.toList = address ++ '/' :: mask := by
      rw [← hjoin]
      simp [List.intercalate]
    intro c hc
    rw [htext, List.mem_append, List.mem_cons] at hc
    rcases hc with hc | rfl | hc
    · exact hfront c hc
    · decide
    · exact hback c hc
  | [], _ => exact absurd hparts (List.splitOn_ne_nil _ _)
  | _ :: _ :: _ :: _, _ =>
    rw [hparts] at h
    cases h

/-- The first separator of a text whose front has no blank. -/
theorem partitionDash_append {net : List Char} (h : ∀ c ∈ net, isSpace c = false) (rest : List Char) :
    partitionDash (net ++ ' ' :: '-' :: ' ' :: rest) = some (net, rest) := by
  induction net with
  | nil => rfl
  | cons c net ih =>
    have hc : c ≠ ' ' := by
      rintro rfl
      exact absurd (h ' ' List.mem_cons_self) (by decide)
    have hnet := ih fun d hd => h d (List.mem_cons_of_mem c hd)
    rw [List.cons_append, partitionDash, hnet]
    · rfl
    · exact fun tail heq => absurd heq hc

/-- A route in its canonical form. -/
structure IsRoute (net gw : String) : Prop where
  network : (Ipv4.parseNetwork net).isSome
  router : (Ipv4.parse gw).isSome

/-- The text of a route. -/
def routeText (net gw : String) : String := net ++ " - " ++ gw

variable {net gw pair : String}

/-- A route that is accepted has a network and a router. -/
theorem exists_route (h : checkRoute pair = none) :
    ∃ net gw, canonicalRoute pair = routeText net gw ∧ IsRoute net gw := by
  unfold checkRoute at h
  unfold canonicalRoute
  cases hparts : partitionDash pair.toList with
  | none =>
    rw [hparts] at h
    cases h
  | some parts =>
    obtain ⟨net, gw⟩ := parts
    rw [hparts] at h
    dsimp only at h
    split_ifs at h with hnet hgw
    refine ⟨strip (String.ofList net), strip (String.ofList gw), rfl, ?_, ?_⟩
    · exact Option.isSome_iff_ne_none.mpr fun hnone => hnet (Option.isNone_iff_eq_none.mpr hnone)
    · rw [Bool.not_eq_true', Bool.not_eq_false] at hgw
      exact hgw

/-- The parts of a route have no blank, so that the separator is found between them. -/
theorem IsRoute.partition (h : IsRoute net gw) :
    partitionDash (routeText net gw).toList = some (net.toList, gw.toList) := by
  have hchars : ∀ c ∈ net.toList, isSpace c = false :=
    fun c hc => (isSpace_of_parseNetwork h.network c hc).1
  have htext : (routeText net gw).toList = net.toList ++ ' ' :: '-' :: ' ' :: gw.toList := by
    simp [routeText]
  rw [htext]
  exact partitionDash_append hchars gw.toList

theorem IsRoute.strip_net (h : IsRoute net gw) : strip net = net :=
  strip_of_all fun c hc => (isSpace_of_parseNetwork h.network c hc).1

theorem IsRoute.strip_gw (h : IsRoute net gw) : strip gw = gw :=
  strip_of_all fun c hc => (isSpace_of_parse h.router c hc).1

theorem IsRoute.check (h : IsRoute net gw) : checkRoute (routeText net gw) = none := by
  unfold checkRoute
  rw [h.partition]
  have hnet : ¬ (Ipv4.parseNetwork net).isNone = true :=
    fun hnone => Option.isSome_iff_ne_none.mp h.network (Option.isNone_iff_eq_none.mp hnone)
  have hgw : isIpv4 gw = true := h.router
  simp [h.strip_net, h.strip_gw, hnet, hgw]

theorem IsRoute.canonical (h : IsRoute net gw) :
    canonicalRoute (routeText net gw) = routeText net gw := by
  unfold canonicalRoute
  rw [h.partition]
  show strip (String.ofList net.toList) ++ " - " ++ strip (String.ofList gw.toList) = _
  rw [String.ofList_toList, String.ofList_toList, h.strip_net, h.strip_gw]
  rfl

/-- A route is an item of a list. -/
theorem IsRoute.isItem (h : IsRoute net gw) : IsItem (routeText net gw) := by
  have hnet := isSpace_of_parseNetwork h.network
  have hgw := isSpace_of_parse h.router
  have htext : (routeText net gw).toList = net.toList ++ ' ' :: '-' :: ' ' :: gw.toList := by
    simp [routeText]
  have hgwne : gw.toList ≠ [] := (Ipv4.chars_of_parse h.router).1
  have hnetne : net.toList ≠ [] := by
    intro hnil
    have hempty : net = "" := String.toList_inj.mp hnil
    exact absurd h.network (by rw [hempty]; decide)
  obtain ⟨c, cs, hcs⟩ := List.exists_cons_of_ne_nil hnetne
  have hlast := List.getLast?_eq_some_getLast hgwne
  have hstrip : strip (routeText net gw) = routeText net gw := by
    refine strip_of_ends (c := c) (d := gw.toList.getLast hgwne) ?_ ?_ ?_ ?_
    · rw [htext, hcs]
      rfl
    · rw [htext, List.getLast?_append, List.getLast?_cons_cons, List.getLast?_cons_cons,
        List.getLast?_cons, hlast]
      rfl
    · exact (hnet c (hcs ▸ List.mem_cons_self)).1
    · exact (hgw _ (List.getLast_mem hgwne)).1
  refine ⟨fun hempty => ?_, hstrip, ?_⟩
  · rw [hempty, hcs] at htext
    cases htext
  · rw [htext]
    simp only [List.mem_append, List.mem_cons, not_or]
    exact ⟨fun hc => (hnet _ hc).2 rfl, by decide, by decide, by decide, fun hc => (hgw _ hc).2 rfl⟩

end Route

/-! ## Hexadecimal values -/

section Hex

variable {data : String} {form : String}

/-- A hexadecimal digit in lower case is one, and stays so. -/
theorem toLower_hexDigit {c : Char} (h : isHexDigit c = true) :
    isHexDigit c.toLower = true ∧ c.toLower.toLower = c.toLower ∧ isSpace c.toLower = false ∧
      c.toLower ≠ ':' ∧ c.toLower ≠ ' ' ∧ c.toLower ≠ 'x' := by
  have hall : ("0123456789abcdefABCDEF".toList.all fun c => decide (isHexDigit c.toLower = true ∧
      c.toLower.toLower = c.toLower ∧ isSpace c.toLower = false ∧ c.toLower ≠ ':' ∧ c.toLower ≠ ' ' ∧
      c.toLower ≠ 'x')) = true := by decide
  exact of_decide_eq_true (List.all_eq_true.mp hall c (isHexDigit_mem h))

/-- What is left of a text comes in the order of the text. -/
theorem strip_sublist (text : String) : (strip text).toList.Sublist text.toList := by
  rw [strip, String.toList_ofList]
  have hback := (List.dropWhile_sublist isSpace (l := (text.toList.dropWhile isSpace).reverse)).reverse
  rw [List.reverse_reverse] at hback
  exact hback.trans (List.dropWhile_sublist isSpace)

theorem length_withoutPrefix (cs : List Char) : (withoutPrefix cs).length ≤ cs.length := by
  unfold withoutPrefix
  split
  · split_ifs
    · simp only [List.length_cons]
      omega
    · exact le_rfl
  · exact le_rfl

/-- Nothing is taken out of a form that is its own canonical form. -/
theorem whole_of_canonical (h : lower (String.ofList (hexBody (strip form))) = form) :
    strip form = form ∧ (withoutPrefix form.toList).length = form.toList.length := by
  have hlength : form.toList.length = (hexBody (strip form)).length := by
    conv_lhs => rw [← h]
    simp [lower]
  have hfilter : (hexBody (strip form)).length ≤ (withoutPrefix (strip form).toList).length :=
    List.length_filter_le _ _
  have hle := length_withoutPrefix (strip form).toList
  have hsublist := strip_sublist form
  have hstrip : strip form = form := String.toList_inj.mp (hsublist.eq_of_length_le (by omega))
  rw [hstrip] at hle hfilter hlength
  exact ⟨hstrip, by omega⟩

/-- The canonical form of hexadecimal digits is made of these. -/
theorem hexBody_of_digits {body : List Char} (h : ∀ c ∈ body, isHexDigit c = true) :
    strip (lower (String.ofList body)) = lower (String.ofList body) ∧
      hexBody (lower (String.ofList body)) = body.map Char.toLower := by
  have hchars : (lower (String.ofList body)).toList = body.map Char.toLower := by simp [lower]
  have hdigit : ∀ c ∈ body.map Char.toLower,
      isHexDigit c = true ∧ c.toLower = c ∧ isSpace c = false ∧ c ≠ ':' ∧ c ≠ ' ' ∧ c ≠ 'x' := by
    intro c hc
    obtain ⟨d, hd, rfl⟩ := List.mem_map.mp hc
    exact toLower_hexDigit (h d hd)
  constructor
  · apply strip_of_all
    rw [hchars]
    exact fun c hc => (hdigit c hc).2.2.1
  · have hmask : withoutPrefix (body.map Char.toLower) = body.map Char.toLower := by
      unfold withoutPrefix
      split
      · next c rest heq =>
        have hc := hdigit c (heq ▸ List.mem_cons_of_mem _ List.mem_cons_self)
        rw [if_neg]
        rw [hc.2.1]
        exact hc.2.2.2.2.2
      · rfl
    rw [hexBody, hchars, hmask]
    refine List.filter_eq_self.mpr fun c hc => ?_
    obtain ⟨-, -, -, hcolon, hblank, -⟩ := hdigit c hc
    exact decide_eq_true ⟨hcolon, hblank⟩

/-- Digits in pairs are accepted. -/
theorem check_of_digits {body : List Char} (h : ∀ c ∈ body, isHexDigit c = true) (hne : body ≠ [])
    (heven : body.length % 2 ≠ 1) : OptType.hex.check (lower (String.ofList body)) = none := by
  have hmap : ∀ c ∈ body.map Char.toLower, isHexDigit c = true := by
    intro c hc
    obtain ⟨d, hd, rfl⟩ := List.mem_map.mp hc
    exact (toLower_hexDigit (h d hd)).1
  have hmatch : matchesHex (body.map Char.toLower) = true := by
    unfold matchesHex
    have hx : ∀ rest, body.map Char.toLower ≠ '0' :: 'x' :: rest := by
      intro rest heq
      exact absurd (hmap 'x' (heq ▸ by simp)) (by decide)
    have hlast : (body.map Char.toLower).getLast? ≠ some '\n' := by
      intro heq
      exact absurd (hmap _ (List.mem_of_getLast? heq)) (by decide)
    split
    · next rest heq => exact absurd heq (hx rest)
    · dsimp only
      rw [if_neg hlast]
      exact List.all_eq_true.mpr hmap
  have hnil : body.map Char.toLower ≠ [] := by simpa using hne
  show (if hexBody _ = [] ∨ ¬ matchesHex (hexBody _) ∨ (hexBody _).length % 2 = 1 then _ else _) = _
  rw [(hexBody_of_digits h).2, if_neg]
  rintro (hnil' | hno | hodd)
  · exact hnil hnil'
  · exact hno hmatch
  · rw [List.length_map] at hodd
    exact heven hodd

/-- What is accepted and left whole are digits. -/
theorem digits_of_whole {body : List Char} (hmatch : matchesHex body = true) (hne : body ≠ [])
    (hstrip : strip (lower (String.ofList body)) = lower (String.ofList body))
    (hmask : (withoutPrefix (lower (String.ofList body)).toList).length = body.length) :
    ∀ c ∈ body, isHexDigit c = true := by
  have hchars : (lower (String.ofList body)).toList = body.map Char.toLower := by simp [lower]
  rw [hchars] at hmask
  have hx : ∀ rest, body ≠ '0' :: 'x' :: rest := by
    rintro rest rfl
    have hdrop : withoutPrefix (('0' :: 'x' :: rest).map Char.toLower) = rest.map Char.toLower := rfl
    rw [hdrop, List.length_map, List.length_cons, List.length_cons] at hmask
    omega
  have hlast : body.getLast? ≠ some '\n' := by
    intro heq
    have hform : lower (String.ofList body) ≠ "" := by
      intro hempty
      rw [hempty] at hchars
      exact hne (List.map_eq_nil_iff.mp hchars.symm)
    rw [← hstrip] at hform
    obtain ⟨c, d, -, hend, -, hspace⟩ := ends_of_strip hform
    rw [hstrip, hchars, List.getLast?_map, heq] at hend
    have hd : d = Char.toLower '\n' := (Option.some.inj hend).symm
    rw [hd] at hspace
    exact absurd hspace (by decide)
  unfold matchesHex at hmatch
  split at hmatch
  · next rest => exact absurd rfl (hx rest)
  · dsimp only at hmatch
    rw [if_neg hlast] at hmatch
    exact List.all_eq_true.mp hmatch

end Hex

/-! ## What is kept -/

section

variable {optType data : String}

theorem badItems_none {ok : String → Bool} {what : String} {parts : List String} :
    badItems ok what parts = none ↔ ∀ p ∈ parts, ok p = true := by
  unfold badItems
  simp only [List.isEmpty_iff, List.filter_eq_nil_iff]
  split_ifs with h
  · simpa using h
  · simpa using h

/-- A list that is joined is kept where it has an item. -/
theorem kept_iff_items {type : OptType} {list : List String} (htype : OptType.ofName optType = some type)
    (hform : type.canonical (strip data) = commaJoin list) (hitems : ∀ item ∈ list, IsItem item)
    (hcheck : ∀ form, items form = list → type.check form = none)
    (hcanonical : ∀ form, items form = list → type.canonical form = commaJoin list) :
    Kept optType data ↔ list ≠ [] := by
  constructor
  · rintro hkept rfl
    apply hkept.ne_empty
    unfold normalize
    rw [htype]
    exact hform
  · intro hne
    obtain ⟨hempty, hstrip, hjoin⟩ := joined hitems hne
    exact kept_of_canonical htype hform hempty hstrip (hcheck _ hjoin) (hcanonical _ hjoin)

/-- A hexadecimal value is kept where digits are left of it. -/
theorem kept_iff_digits (htype : OptType.ofName optType = some .hex)
    (hcheck : OptType.hex.check (strip data) = none) :
    Kept optType data ↔ ∀ c ∈ hexBody (strip data), isHexDigit c = true := by
  have hbody : hexBody (strip data) ≠ [] ∧ matchesHex (hexBody (strip data)) = true ∧
      (hexBody (strip data)).length % 2 ≠ 1 := by
    change (if _ ∨ _ ∨ _ then _ else _) = _ at hcheck
    split_ifs at hcheck with hbad
    simpa [not_or] using hbad
  obtain ⟨hne, hmatch, heven⟩ := hbody
  set body := hexBody (strip data) with hdef
  have hform : OptType.hex.canonical (strip data) = lower (String.ofList body) := rfl
  constructor
  · rintro ⟨-, hsame⟩
    unfold normalize at hsame
    rw [htype] at hsame
    have hagain : lower (String.ofList (hexBody (strip (lower (String.ofList body))))) =
        lower (String.ofList body) := hsame
    obtain ⟨hstrip, hmask⟩ := whole_of_canonical hagain
    have hlength : (lower (String.ofList body)).toList.length = body.length := by simp [lower]
    exact digits_of_whole hmatch hne hstrip (hmask.trans hlength)
  · intro hdigits
    obtain ⟨hstrip, hagain⟩ := hexBody_of_digits hdigits
    refine kept_of_canonical htype hform ?_ hstrip (check_of_digits hdigits hne heven) ?_
    · intro hempty
      have hchars := congrArg String.toList hempty
      simp [lower, hne] at hchars
    · show lower (String.ofList (hexBody (lower (String.ofList body)))) = lower (String.ofList body)
      rw [hagain]
      simp only [lower, String.toList_ofList, List.map_map]
      refine congrArg String.ofList (List.map_congr_left fun c hc => ?_)
      exact (toLower_hexDigit (hdigits c hc)).2.1

/-- A list of addresses in pairs is kept: it has one. -/
theorem kept_pairs (htype : OptType.ofName optType = some .ipPairList)
    (hcheck : OptType.ipPairList.check (strip data) = none) : Kept optType data := by
  unfold OptType.check at hcheck
  dsimp only at hcheck
  have hitems : items (strip data) ≠ [] := by
    intro hnil
    rw [hnil] at hcheck
    cases hcheck
  have hagain : ∀ form, items form = items (strip data) → OptType.ipPairList.check form = none := by
    intro form hform
    unfold OptType.check
    rw [hform]
    exact hcheck
  have hform : OptType.ipPairList.canonical (strip data) = commaJoin (items (strip data)) := rfl
  have hkept := kept_iff_items htype hform (fun _ => isItem_of_mem) hagain
    fun form hform => congrArg commaJoin hform
  exact hkept.mpr hitems

/-- A list of routes is kept where it has one. -/
theorem kept_iff_routes (htype : OptType.ofName optType = some .classlessRoutes)
    (hcheck : OptType.classlessRoutes.check (strip data) = none) :
    Kept optType data ↔ items (strip data) ≠ [] := by
  have hroutes : ∀ pair ∈ items (strip data), checkRoute pair = none := List.findSome?_eq_none_iff.mp hcheck
  set routes := (items (strip data)).map canonicalRoute with hdef
  have hall : ∀ route ∈ routes, IsItem route ∧ checkRoute route = none ∧ canonicalRoute route = route := by
    intro route hroute
    obtain ⟨pair, hpair, rfl⟩ := List.mem_map.mp hroute
    obtain ⟨net, gw, htext, h⟩ := exists_route (hroutes pair hpair)
    rw [htext]
    exact ⟨h.isItem, h.check, h.canonical⟩
  have hform : OptType.classlessRoutes.canonical (strip data) = commaJoin routes := rfl
  have hagain : ∀ form, items form = routes → OptType.classlessRoutes.check form = none := by
    intro form hform
    show (items form).findSome? checkRoute = none
    rw [hform]
    exact List.findSome?_eq_none_iff.mpr fun route hroute => (hall route hroute).2.1
  have hsame : ∀ form, items form = routes → OptType.classlessRoutes.canonical form = commaJoin routes := by
    intro form hform
    show commaJoin ((items form).map canonicalRoute) = commaJoin routes
    rw [hform]
    refine congrArg commaJoin ?_
    calc routes.map canonicalRoute = routes.map id :=
          List.map_congr_left fun route hroute => (hall route hroute).2.2
      _ = routes := List.map_id routes
  have hkept := kept_iff_items htype hform (fun route hroute => (hall route hroute).1) hagain hsame
  exact hkept.trans (not_congr List.map_eq_nil_iff)

/-- A list whose items are checked each alone is kept where it has one. -/
theorem kept_iff_list {type : OptType} {ok : String → Bool} {what : String}
    (htype : OptType.ofName optType = some type) (hcheck : type.check (strip data) = none)
    (hlist : ∀ form, type.check form = badItems ok what (items form))
    (hform : ∀ form, type.canonical form = commaJoin (items form)) :
    Kept optType data ↔ items (strip data) ≠ [] := by
  refine kept_iff_items htype (hform _) (fun _ => isItem_of_mem) (fun form hitems => ?_)
    fun form hitems => (hform form).trans (congrArg commaJoin hitems)
  rw [hlist, hitems, ← hlist]
  exact hcheck

/-- A truth value is kept. -/
theorem kept_boolean (htype : OptType.ofName optType = some .boolean)
    (hcheck : OptType.boolean.check (strip data) = none) : Kept optType data := by
  unfold OptType.check at hcheck
  dsimp only at hcheck
  split_ifs at hcheck with hbool
  rcases hbool with hbool | hbool
  · exact kept_of_canonical htype hbool (by decide) (by decide) (by decide) (by decide)
  · exact kept_of_canonical htype hbool (by decide) (by decide) (by decide) (by decide)

/-- A value that is accepted is stored in a form that is accepted and does not change again, if and only if
a list has an item, and what is left of a hexadecimal value are digits. -/
theorem kept_iff_plain (h : validate optType data = none) : Kept optType data ↔ Plain optType data := by
  obtain ⟨type, htype, hne, hcheck⟩ := of_validate h
  unfold Plain
  rw [htype]
  cases type with
  | ipList => exact kept_iff_list htype hcheck (fun _ => rfl) fun _ => rfl
  | fqdnList => exact kept_iff_list htype hcheck (fun _ => rfl) fun _ => rfl
  | ipPairList => exact iff_of_true (kept_pairs htype hcheck) trivial
  | classlessRoutes => exact kept_iff_routes htype hcheck
  | hex => exact kept_iff_digits htype hcheck
  | boolean => exact iff_of_true (kept_boolean htype hcheck) trivial
  | ip | string | fqdn | uint8 | uint16 | uint32 | int32 =>
    exact iff_of_true (kept_of_canonical htype rfl hne (strip_strip data) hcheck rfl) trivial

theorem kept_iff_plain_servers :
    Kept "ip-list" " 10.0.0.1,, 10.0.0.2 " ↔ Plain "ip-list" " 10.0.0.1,, 10.0.0.2 " :=
  kept_iff_plain (by decide)

/-- A list of nothing but a comma is accepted, and stored as nothing, which is not. -/
theorem not_kept_comma : ¬ ∀ optType data, validate optType data = none → Kept optType data := by
  intro h
  have hkept := h "ip-list" "," (by decide)
  exact absurd hkept.1 (by decide)

end

end JenKea.Subnets
