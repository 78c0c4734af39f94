import Mathlib.Data.List.Dedup
import JenKea.Credentials.Materialize

/-!
# Which Kea Jen reaches, said twice

`identity_diff` of `tools/config_merge.py` says how the Kea that Jen reaches differs between two files, where no Jen is
there to ask; `identity_view` of `jen/config.py` is what Jen's own guards compare when it saves. The installer's check
is to be no second opinion: it says nothing exactly where the guards would see no change.
-/

namespace JenKea.ConfigMerge

open Credentials (get serverNumber serverNumbers serverSection)

/-- `DEFAULT_KEA_CONF`. -/
def DEFAULT_KEA_CONF : String := "/etc/kea/kea-dhcp4.conf"

/-- The connection mode, as `apply()` reads it. -/
def connectionMode (p : Ini) : String :=
  let mode := (Text.strip (get p "kea" "connection_mode" "ca")).toLower
  if mode = "ca" ∨ mode = "direct" then mode else "ca"

/-! ## The installer's view -/

/-- What a line of the view is about: `[kea] connection_mode`, `[section] key`, or `[section]` itself. -/
inductive Label
  | mode
  | setting (sec key : String)
  | server (sec : String)
  deriving DecidableEq

/-- The text of a label. -/
def Label.text : Label → String
  | .mode => "[kea] connection_mode"
  | .setting sec key => "[" ++ sec ++ "] " ++ key
  | .server sec => "[" ++ sec ++ "]"

/-- `_PRIMARY_IDENTITY`. -/
def PRIMARY_IDENTITY : List (String × String) :=
  [("kea", "api_url"), ("kea_ssh", "host"), ("kea_ssh", "user"), ("kea_ssh", "kea_conf")]

/-- `_EXTRA_IDENTITY`. -/
def EXTRA_IDENTITY : List String := ["api_url", "ssh_host", "ssh_user", "kea_conf"]

/-- The section is that of an additional server. -/
def isExtra (sec : String) : Bool := (serverNumber sec).any fun n => 2 ≤ n

/-- The labels of a view, in order. -/
def labels (p : Ini) : List Label :=
  .mode :: PRIMARY_IDENTITY.map (fun x => .setting x.1 x.2) ++
    (p.sections.keys.filter isExtra).flatMap fun sec => EXTRA_IDENTITY.map (.setting sec) ++ [.server sec]

/-- What the view has for a label. -/
def shown (p : Ini) : Label → String
  | .mode => connectionMode p
  | .setting sec key => Text.orElse (Text.strip (get p sec key "")) (if key = "kea_conf" then DEFAULT_KEA_CONF else "")
  | .server _ => "present"

/-- `identity_view` of the installer. -/
def identityView (p : Ini) : Map Label String := .ofList ((labels p).map fun l => (l, shown p l))

/-- A value as a line gives it. -/
def orNotSet (value : Option String) : String := if value.getD "" = "" then "(not set)" else value.getD ""

/-- The line of a label. -/
def diffLine (before after : Map Label String) (l : Label) : Option String :=
  let old := before.get l
  let new := after.get l
  if old = new then none
  else
    match l with
    | .server _ => some (l.text ++ if old = none then " added" else " removed")
    | .setting sec _ =>
      if "kea_server_".toList <+: sec.toList ∧ (old = none ∨ new = none) then none
      else some (l.text ++ ": " ++ orNotSet old ++ " -> " ++ orNotSet new)
    | .mode => some (l.text ++ ": " ++ orNotSet old ++ " -> " ++ orNotSet new)

/-- `identity_diff`. -/
def identityDiff (before after : Ini) : List String :=
  let before := identityView before
  let after := identityView after
  ((before.keys ++ after.keys).dedup.insertionSort fun a b => a.text ≤ b.text).filterMap (diffLine before after)

/-! ## Jen's view -/

/-- `IDENTITY_KEYS`, by their values. -/
structure Identity where
  apiUrl : String
  sshHost : String
  sshUser : String
  keaConf : String
  deriving DecidableEq

/-- `normalized_identity`. -/
def normalized (s : Identity) : Identity where
  apiUrl := Text.strip s.apiUrl
  sshHost := Text.strip s.sshHost
  sshUser := Text.strip s.sshUser
  keaConf := Text.orElse (Text.strip s.keaConf) DEFAULT_KEA_CONF

/-- The first server of `derive_kea_servers`. -/
def primaryServer (p : Ini) : Identity where
  apiUrl := get p "kea" "api_url" ""
  sshHost := get p "kea_ssh" "host" ""
  sshUser := get p "kea_ssh" "user" ""
  keaConf := get p "kea_ssh" "kea_conf" DEFAULT_KEA_CONF

/-- An additional server of `derive_kea_servers`. -/
def extraServer (place : String → Option String) (p : Ini) (n : ℕ) : Identity where
  apiUrl := (Credentials.endpoint place p (.server n)).url
  sshHost := get p (serverSection n) "ssh_host" ""
  sshUser := get p (serverSection n) "ssh_user" ""
  keaConf := get p (serverSection n) "kea_conf" DEFAULT_KEA_CONF

/-- `identity_view` of Jen: each server by its id, and the mode. -/
structure AppView where
  servers : Map ℕ Identity
  mode : String

/-- `identity_view`. -/
def appView (place : String → Option String) (p : Ini) : AppView where
  servers := .ofList ((1, normalized (primaryServer p)) ::
    (serverNumbers p).map fun n => (n, normalized (extraServer place p n)))
  mode := connectionMode p

/-- Two views are equal as dictionaries. -/
def AppView.Same (v v' : AppView) : Prop := v.mode = v'.mode ∧ ∀ n, v.servers.get n = v'.servers.get n

/-- The sections of additional servers are named as Jen names them. -/
def Canonical (p : Ini) : Prop := ∀ sec ∈ p.sections.keys, ∀ n ∈ serverNumber sec, sec = serverSection n

/-! ## What the views read -/

section Views

variable {place : String → Option String} {p q : Ini} {sec key : String} {n : ℕ} {l : Label}

/-- A dictionary that a function of its keys fills. -/
theorem get_ofList_map {κ α : Type} [DecidableEq κ] {f : κ → α} {ks : List κ} {k : κ} :
    (Map.ofList (ks.map fun k => (k, f k))).get k = if k ∈ ks then some (f k) else none := by
  unfold Map.ofList
  split_ifs with hmem
  · refine Map.get_putAll_of_mem (List.mem_map.mpr ⟨k, hmem, rfl⟩) fun x hx hkey => ?_
    obtain ⟨k', -, rfl⟩ := List.mem_map.mp hx
    rw [← hkey]
  · rw [Map.get_putAll_of_notMem, Map.get_empty]
    intro x hx hkey
    obtain ⟨k', hk', rfl⟩ := List.mem_map.mp hx
    exact hmem (hkey ▸ hk')

theorem get_identityView : (identityView p).get l = if l ∈ labels p then some (shown p l) else none :=
  get_ofList_map

theorem prefix_of_isExtra (h : isExtra sec = true) : "kea_server_".toList <+: sec.toList := by
  unfold isExtra serverNumber at h
  split_ifs at h with hserver
  · exact (of_decide_eq_true hserver).1
  · cases h

theorem not_prefix_of_primary (h : (sec, key) ∈ PRIMARY_IDENTITY) : ¬ "kea_server_".toList <+: sec.toList := by
  have hall : ∀ x ∈ PRIMARY_IDENTITY, ¬ "kea_server_".toList <+: x.1.toList := by decide
  exact hall _ h

theorem server_mem_labels : .server sec ∈ labels p ↔ sec ∈ p.sections.keys ∧ isExtra sec = true := by
  simp [labels]

theorem setting_mem_labels : .setting sec key ∈ labels p ↔
    (sec, key) ∈ PRIMARY_IDENTITY ∨ .server sec ∈ labels p ∧ key ∈ EXTRA_IDENTITY := by
  rw [server_mem_labels]
  simp [labels]

/-- The digits of a number are read as the number. -/
theorem digits_toDigits (n : ℕ) : Text.digits? (Nat.toDigits 10 n) = some n := by
  have hdigit : ∀ c ∈ Nat.toDigits 10 n, c.isDigit = true := fun c hc =>
    Nat.isDigit_of_mem_toDigits (by decide) (by decide) hc
  have hplain : ∀ c ∈ Nat.toDigits 10 n, c ≠ '_' := by
    rintro c hc rfl
    exact absurd (hdigit _ hc) (by decide)
  have hsplit : (Nat.toDigits 10 n).splitOn '_' = [Nat.toDigits 10 n] :=
    List.splitOn_eq_singleton fun hmem => hplain _ hmem rfl
  have hfilter : (Nat.toDigits 10 n).filter (· ≠ '_') = Nat.toDigits 10 n :=
    List.filter_eq_self.mpr fun c hc => decide_eq_true (hplain c hc)
  have hne : Nat.toDigits 10 n ≠ [] := Nat.toDigits_ne_nil
  unfold Text.digits?
  rw [hsplit, hfilter, if_pos]
  · exact congrArg some Nat.ofDigitChars_ten_toDigits
  · simpa [hne] using hdigit

/-- The number of a section that is named as Jen names it. -/
theorem serverNumber_serverSection (n : ℕ) : serverNumber (serverSection n) = some n := by
  have hlist : (serverSection n).toList = "kea_server_".toList ++ (toString n).toList := String.toList_append
  have hdigits : Credentials.serverDigits (serverSection n) = Nat.toDigits 10 n := by
    unfold Credentials.serverDigits
    rw [hlist]
    exact List.drop_left.trans String.toList_ofList
  unfold serverNumber
  rw [if_pos (Credentials.isServerSection_serverSection n), hdigits, digits_toDigits]

theorem isExtra_serverSection : isExtra (serverSection n) = true ↔ 2 ≤ n := by
  unfold isExtra
  rw [serverNumber_serverSection, Option.any_some, decide_eq_true_iff]

/-- The additional servers are those of the sections, under their names. -/
theorem mem_serverNumbers (h : Canonical p) : n ∈ serverNumbers p ↔ .server (serverSection n) ∈ labels p := by
  rw [server_mem_labels, isExtra_serverSection, serverNumbers, (List.perm_insertionSort _ _).mem_iff, List.mem_filter,
    List.mem_filterMap, decide_eq_true_iff]
  refine and_congr_left fun _ => ⟨?_, fun hmem => ⟨_, hmem, serverNumber_serverSection n⟩⟩
  rintro ⟨sec, hsec, hnumber⟩
  rwa [← h sec hsec n hnumber]

/-- A label of an additional server is one of a number. -/
theorem exists_number (h : Canonical p) (hmem : .server sec ∈ labels p) :
    ∃ n, sec = serverSection n ∧ n ∈ serverNumbers p := by
  obtain ⟨hsec, hextra⟩ := server_mem_labels.mp hmem
  cases hn : serverNumber sec with
  | none =>
    rw [isExtra, hn] at hextra
    cases hextra
  | some n =>
    obtain rfl := h sec hsec n hn
    exact ⟨n, rfl, (mem_serverNumbers h).mpr hmem⟩

/-! ## The two views -/

theorem orElse_blank (a : String) : Text.orElse a "" = a := by
  unfold Text.orElse
  split_ifs with h
  · exact h.symm
  · rfl

/-- A path that is not there is the default one. -/
theorem keaConf_eq : Text.orElse (Text.strip (get p sec "kea_conf" DEFAULT_KEA_CONF)) DEFAULT_KEA_CONF =
    Text.orElse (Text.strip (get p sec "kea_conf" "")) DEFAULT_KEA_CONF := by
  rw [Credentials.get_eq_value, Credentials.get_eq_value]
  cases Credentials.value p sec "kea_conf" with
  | none => decide
  | some v => rfl

theorem shown_keaConf : shown p (.setting sec "kea_conf") =
    Text.orElse (Text.strip (get p sec "kea_conf" DEFAULT_KEA_CONF)) DEFAULT_KEA_CONF := keaConf_eq.symm

theorem shown_setting (h : key ≠ "kea_conf") : shown p (.setting sec key) = Text.strip (get p sec key "") := by
  unfold shown
  dsimp only
  rw [if_neg h, orElse_blank]

theorem normalized_primaryServer : normalized (primaryServer p) =
    ⟨shown p (.setting "kea" "api_url"), shown p (.setting "kea_ssh" "host"), shown p (.setting "kea_ssh" "user"),
      shown p (.setting "kea_ssh" "kea_conf")⟩ := by
  rw [shown_keaConf, shown_setting (by decide), shown_setting (by decide), shown_setting (by decide)]
  rfl

theorem normalized_extraServer : normalized (extraServer place p n) =
    ⟨shown p (.setting (serverSection n) "api_url"), shown p (.setting (serverSection n) "ssh_host"),
      shown p (.setting (serverSection n) "ssh_user"), shown p (.setting (serverSection n) "kea_conf")⟩ := by
  have hurl : (Credentials.endpoint place p (.server n)).url = get p (serverSection n) "api_url" "" :=
    Credentials.url_inherit
  rw [shown_keaConf, shown_setting (by decide), shown_setting (by decide), shown_setting (by decide), ← hurl]
  rfl

theorem two_le_of_mem (h : n ∈ serverNumbers p) : 2 ≤ n := by
  unfold serverNumbers at h
  rw [(List.perm_insertionSort _ _).mem_iff, List.mem_filter, decide_eq_true_iff] at h
  exact h.2

/-- The servers of Jen's view. -/
theorem get_servers : (appView place p).servers.get n =
    if n = 1 then some (normalized (primaryServer p))
    else if n ∈ serverNumbers p then some (normalized (extraServer place p n)) else none := by
  have hlist : (1, normalized (primaryServer p)) ::
      (serverNumbers p).map (fun n => (n, normalized (extraServer place p n))) =
      (1 :: serverNumbers p).map fun n =>
        (n, if n = 1 then normalized (primaryServer p) else normalized (extraServer place p n)) := by
    rw [List.map_cons, if_pos rfl]
    refine congrArg _ (List.map_congr_left fun m hm => ?_)
    have hne : m ≠ 1 := by
      have := two_le_of_mem hm
      omega
    rw [if_neg hne]
  have hget : (appView place p).servers = .ofList ((1, normalized (primaryServer p)) ::
      (serverNumbers p).map fun n => (n, normalized (extraServer place p n))) := rfl
  rw [hget, hlist, get_ofList_map]
  by_cases hn : n = 1
  · simp [hn]
  · simp [hn]

/-- What both views compare. -/
structure Agree (p q : Ini) : Prop where
  mode : connectionMode p = connectionMode q
  primary : ∀ x ∈ PRIMARY_IDENTITY, shown p (.setting x.1 x.2) = shown q (.setting x.1 x.2)
  numbers : ∀ n, n ∈ serverNumbers p ↔ n ∈ serverNumbers q
  extra : ∀ n ∈ serverNumbers p, ∀ key ∈ EXTRA_IDENTITY,
    shown p (.setting (serverSection n) key) = shown q (.setting (serverSection n) key)

theorem same_iff : (appView place p).Same (appView place q) ↔ Agree p q := by
  constructor
  · rintro ⟨hmode, hservers⟩
    have hprimary := hservers 1
    rw [get_servers, get_servers, if_pos rfl, if_pos rfl, Option.some.injEq, normalized_primaryServer,
      normalized_primaryServer, Identity.mk.injEq] at hprimary
    have hnumbers : ∀ n, n ∈ serverNumbers p ↔ n ∈ serverNumbers q := by
      intro n
      by_cases hn : n = 1
      · have hp : n ∉ serverNumbers p := fun h => by
          have := two_le_of_mem h
          omega
        have hq : n ∉ serverNumbers q := fun h => by
          have := two_le_of_mem h
          omega
        exact iff_of_false hp hq
      · have hsome := congrArg Option.isSome (hservers n)
        rw [get_servers, get_servers, if_neg hn, if_neg hn] at hsome
        by_cases hp : n ∈ serverNumbers p
        · by_cases hq : n ∈ serverNumbers q
          · exact iff_of_true hp hq
          · simp [hp, hq] at hsome
        · by_cases hq : n ∈ serverNumbers q
          · simp [hp, hq] at hsome
          · exact iff_of_false hp hq
    refine ⟨hmode, fun x hx => ?_, hnumbers, fun n hn key hkey => ?_⟩
    · simp only [PRIMARY_IDENTITY, List.mem_cons, List.not_mem_nil, or_false] at hx
      rcases hx with rfl | rfl | rfl | rfl
      · exact hprimary.1
      · exact hprimary.2.1
      · exact hprimary.2.2.1
      · exact hprimary.2.2.2
    · have hne : n ≠ 1 := by
        have := two_le_of_mem hn
        omega
      have hextra := hservers n
      rw [get_servers, get_servers, if_neg hne, if_neg hne, if_pos hn, if_pos ((hnumbers n).mp hn), Option.some.injEq,
        normalized_extraServer, normalized_extraServer, Identity.mk.injEq] at hextra
      simp only [EXTRA_IDENTITY, List.mem_cons, List.not_mem_nil, or_false] at hkey
      rcases hkey with rfl | rfl | rfl | rfl
      · exact hextra.1
      · exact hextra.2.1
      · exact hextra.2.2.1
      · exact hextra.2.2.2
  · intro h
    have hprimary : normalized (primaryServer p) = normalized (primaryServer q) := by
      rw [normalized_primaryServer, normalized_primaryServer, h.primary ("kea", "api_url") (by decide),
        h.primary ("kea_ssh", "host") (by decide), h.primary ("kea_ssh", "user") (by decide),
        h.primary ("kea_ssh", "kea_conf") (by decide)]
    refine ⟨h.mode, fun n => ?_⟩
    rw [get_servers, get_servers, hprimary]
    by_cases hn : n = 1
    · rw [if_pos hn, if_pos hn]
    · rw [if_neg hn, if_neg hn]
      by_cases hp : n ∈ serverNumbers p
      · have hextra := h.extra n hp
        rw [if_pos hp, if_pos ((h.numbers n).mp hp), normalized_extraServer, normalized_extraServer,
          hextra "api_url" (by decide), hextra "ssh_host" (by decide), hextra "ssh_user" (by decide),
          hextra "kea_conf" (by decide)]
      · rw [if_neg hp, if_neg fun hq => hp ((h.numbers n).mpr hq)]

theorem gets_iff (hp : Canonical p) (hq : Canonical q) :
    (∀ l, (identityView p).get l = (identityView q).get l) ↔ Agree p q := by
  have hmode : ∀ p, Label.mode ∈ labels p := fun p => List.mem_cons_self
  constructor
  · intro h
    simp only [get_identityView] at h
    have hmem : ∀ l, l ∈ labels p ↔ l ∈ labels q := by
      intro l
      have hsome := congrArg Option.isSome (h l)
      by_cases hl : l ∈ labels p
      · by_cases hl' : l ∈ labels q
        · exact iff_of_true hl hl'
        · simp [hl, hl'] at hsome
      · by_cases hl' : l ∈ labels q
        · simp [hl, hl'] at hsome
        · exact iff_of_false hl hl'
    have hshown : ∀ l ∈ labels p, shown p l = shown q l := by
      intro l hl
      have heq := h l
      rw [if_pos hl, if_pos ((hmem l).mp hl)] at heq
      exact Option.some.inj heq
    refine ⟨hshown .mode (hmode p), fun x hx => hshown _ (setting_mem_labels.mpr (.inl hx)), fun n => ?_,
      fun n hn key hkey => hshown _ (setting_mem_labels.mpr (.inr ⟨(mem_serverNumbers hp).mp hn, hkey⟩))⟩
    rw [mem_serverNumbers hp, mem_serverNumbers hq]
    exact hmem _
  · intro h
    have hserver : ∀ sec, .server sec ∈ labels p ↔ .server sec ∈ labels q := by
      intro sec
      constructor
      · intro hmem
        obtain ⟨n, rfl, hn⟩ := exists_number hp hmem
        exact (mem_serverNumbers hq).mp ((h.numbers n).mp hn)
      · intro hmem
        obtain ⟨n, rfl, hn⟩ := exists_number hq hmem
        exact (mem_serverNumbers hp).mp ((h.numbers n).mpr hn)
    intro l
    rw [get_identityView, get_identityView]
    cases l with
    | mode => rw [if_pos (hmode p), if_pos (hmode q), shown, shown, h.mode]
    | server sec =>
      by_cases hmem : .server sec ∈ labels p
      · rw [if_pos hmem, if_pos ((hserver sec).mp hmem)]
        rfl
      · rw [if_neg hmem, if_neg fun hmem' => hmem ((hserver sec).mpr hmem')]
    | setting sec key =>
      by_cases hprimary : (sec, key) ∈ PRIMARY_IDENTITY
      · rw [if_pos (setting_mem_labels.mpr (.inl hprimary)), if_pos (setting_mem_labels.mpr (.inl hprimary)),
          h.primary _ hprimary]
      · by_cases hextra : .server sec ∈ labels p ∧ key ∈ EXTRA_IDENTITY
        · have hextra' : .server sec ∈ labels q ∧ key ∈ EXTRA_IDENTITY := ⟨(hserver sec).mp hextra.1, hextra.2⟩
          obtain ⟨n, rfl, hn⟩ := exists_number hp hextra.1
          rw [if_pos (setting_mem_labels.mpr (.inr hextra)), if_pos (setting_mem_labels.mpr (.inr hextra')),
            h.extra n hn key hextra.2]
        · have hnot : ∀ {r}, (.server sec ∈ labels r ↔ .server sec ∈ labels p) → .setting sec key ∉ labels r := by
            intro r hr hmem
            rcases setting_mem_labels.mp hmem with hmem | ⟨hmem, hkey⟩
            · exact hprimary hmem
            · exact hextra ⟨hr.mp hmem, hkey⟩
          rw [if_neg (hnot Iff.rfl), if_neg (hnot (hserver sec).symm)]

/-- The installer has no line exactly where its views are equal. -/
theorem identityDiff_nil_iff :
    identityDiff p q = [] ↔ ∀ l, (identityView p).get l = (identityView q).get l := by
  have hlines : identityDiff p q = [] ↔
      ∀ l, l ∈ labels p ∨ l ∈ labels q → diffLine (identityView p) (identityView q) l = none := by
    unfold identityDiff
    dsimp only
    rw [List.filterMap_eq_nil_iff]
    refine forall_congr' fun l => imp_congr ?_ Iff.rfl
    rw [(List.perm_insertionSort _ _).mem_iff, List.mem_dedup, List.mem_append, Map.mem_keys, Map.mem_keys,
      get_identityView, get_identityView]
    by_cases hp : l ∈ labels p
    · simp [hp]
    · simp [hp]
  rw [hlines]
  constructor
  · intro h l
    by_contra hne
    have hmem : l ∈ labels p ∨ l ∈ labels q := by
      by_contra hnot
      rw [not_or] at hnot
      rw [get_identityView, get_identityView, if_neg hnot.1, if_neg hnot.2] at hne
      exact hne rfl
    have hline := h l hmem
    unfold diffLine at hline
    dsimp only at hline
    rw [if_neg hne] at hline
    cases l with
    | mode => cases hline
    | server sec => cases hline
    | setting sec key =>
      -- a key of a server that is not in both files: the server's own line says so
      by_cases hone : "kea_server_".toList <+: sec.toList ∧ ((identityView p).get (.setting sec key) = none ∨
          (identityView q).get (.setting sec key) = none)
      · have hprimary : (sec, key) ∉ PRIMARY_IDENTITY := fun h' => not_prefix_of_primary h' hone.1
        have hsetting : ∀ r, (identityView r).get (.setting sec key) = none ↔
            ¬ (.server sec ∈ labels r ∧ key ∈ EXTRA_IDENTITY) := by
          intro r
          rw [get_identityView, ite_eq_right_iff]
          simp [setting_mem_labels, hprimary]
        have hkey : key ∈ EXTRA_IDENTITY := by
          rcases hmem with hmem | hmem
          · exact ((setting_mem_labels.mp hmem).resolve_left hprimary).2
          · exact ((setting_mem_labels.mp hmem).resolve_left hprimary).2
        have hservers : (identityView p).get (.server sec) = (identityView q).get (.server sec) := by
          by_contra hdiffer
          have hserver : .server sec ∈ labels p ∨ .server sec ∈ labels q := by
            rcases hmem with hmem | hmem
            · exact .inl ((setting_mem_labels.mp hmem).resolve_left hprimary).1
            · exact .inr ((setting_mem_labels.mp hmem).resolve_left hprimary).1
          have hsays := h _ hserver
          unfold diffLine at hsays
          dsimp only at hsays
          rw [if_neg hdiffer] at hsays
          cases hsays
        have hboth : .server sec ∈ labels p ↔ .server sec ∈ labels q := by
          have hsome := congrArg Option.isSome hservers
          rw [get_identityView, get_identityView] at hsome
          by_cases hp : .server sec ∈ labels p
          · by_cases hq : .server sec ∈ labels q
            · exact iff_of_true hp hq
            · simp [hp, hq] at hsome
          · by_cases hq : .server sec ∈ labels q
            · simp [hp, hq] at hsome
            · exact iff_of_false hp hq
        have hnone : (identityView p).get (.setting sec key) = none ↔
            (identityView q).get (.setting sec key) = none := by
          rw [hsetting, hsetting, hboth]
        rcases hone.2 with hp | hq
        · exact hne (hp.trans (hnone.mp hp).symm)
        · exact hne ((hnone.mpr hq).trans hq.symm)
      · dsimp only at hline
        rw [if_neg hone] at hline
        cases hline
  · intro h l _
    unfold diffLine
    dsimp only
    rw [if_pos (h l)]

end Views

/-- Of files whose additional servers are named as Jen names them, the installer's check says nothing exactly where
Jen's guards see no change. -/
theorem identityDiff_iff (place : String → Option String) (before after : Ini) (hbefore : Canonical before)
    (hafter : Canonical after) : identityDiff before after = [] ↔ (appView place before).Same (appView place after) :=
  identityDiff_nil_iff.trans ((gets_iff hbefore hafter).trans same_iff.symm)

/-- A Kea with a standby. -/
def twoServers : Ini :=
  ⟨.empty, .ofList [("kea", .ofList [("api_url", "http://kea:8000")]),
    ("kea_server_2", .ofList [("api_url", "http://standby:8000"), ("ssh_host", "standby")])]⟩

/-- The standby is taken out. -/
def oneServer : Ini := ⟨.empty, .ofList [("kea", .ofList [("api_url", " http://kea:8000")])]⟩

example : identityDiff twoServers oneServer = ["[kea_server_2] removed"] := by decide +kernel

/-- A server that is taken out is a change for both. -/
theorem identityDiff_iff_standby : identityDiff twoServers oneServer = [] ↔
    (appView (fun _ => none) twoServers).Same (appView (fun _ => none) oneServer) :=
  identityDiff_iff _ _ _ (by unfold Canonical; decide +kernel) (by unfold Canonical; decide +kernel)

end JenKea.ConfigMerge
