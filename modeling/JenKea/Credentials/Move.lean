import JenKea.Credentials.Resolve
import JenKea.Lib.IniRoundTrip

/-!
# A saved password stays where it was typed for

What the writer of Jen's configuration asks of every write: no saved password follows its endpoint to
another host, and none turns up at a second one, unless it was typed in that write. Over every run of writes
this keeps the passwords where they were typed for, as long as what is written is what is read back.
-/

namespace JenKea.Credentials

/-! ## The words for an endpoint -/

/-- `label`. -/
def label : Name → String
  | .kea => "Kea API"
  | .kea6 => "Kea6 API"
  | .d2 => "D2 API"
  | .keaDb => "Kea database"
  | .kea6Db => "Kea6 database"
  | .jenDb => "Jen database"
  | .server n => "additional server " ++ toString n
  | .serverV6 n => "additional server " ++ toString n ++ " (IPv6)"
  | .serverD2 n => "additional server " ++ toString n ++ " (D2)"

/-- `RIDES_THE_CONTROL_AGENT`. -/
def ridesTheControlAgent : Name → Bool
  | .kea6 | .d2 | .serverV6 _ | .serverD2 _ => true
  | _ => false

/-- `_parent_of`. -/
def parentOf : Name → Option Name
  | .kea6 | .d2 => some .kea
  | .serverV6 n | .serverD2 n => some (.server n)
  | _ => none

section Writer

variable (place : String → Option String)

/-- `host_of`. -/
def hostOf (url : String) : String := (hostPart place url).getD (Text.strip url)

/-! ## What is refused -/

/-- `_re_pointed_by_the_mode_alone`. -/
def rePointedByTheModeAlone (name : Name) (a : Endpoint) (before after : Map Name Endpoint) : Bool :=
  if a.urlOwn || !ridesTheControlAgent name then false
  else
    let bParent := (parentOf name).bind before.get
    let aParent := (parentOf name).bind after.get
    match before.get name, bParent with
    | some b, some bParent =>
      if b.url = "" || !sameHost place b.url bParent.url then false
      else aParent.any fun aParent => sameHost place bParent.url aParent.url
    | _, _ => false

/-- One endpoint, of a write: its own password changed, followed it to its first address, or to another
host. -/
def judge (before after : Map Name Endpoint) (typed : List Name) (modeChanged : Bool) (name : Name)
    (a : Endpoint) : Option String :=
  if a.source ≠ .own then none
  else if name ∈ typed then none
  else if a.password ≠ "" ∧ (before.get name).all (fun b => b.password ≠ a.password) then
    some ("The " ++ label name ++ "'s password was written without being typed for it: a saved " ++
      "password changes only when it is typed for that endpoint.")
  else if a.url = "" then none
  else if modeChanged && rePointedByTheModeAlone place name a before after then none
  else match before.get name with
    | none => none
    | some b =>
      if b.password ≠ a.password then none
      else if b.url = "" then
        some ("The " ++ label name ++ " has a saved password and is being given its first address (" ++
          hostOf place a.url ++ "): type the password for it - a saved password is never sent to a " ++
          "place it was not typed for.")
      else if !sameHost place b.url a.url then
        some ("The " ++ label name ++ " moved to a different host (" ++ hostOf place a.url ++
          ") with its saved password: type the password for the new place - a saved password is never " ++
          "sent to one it was not typed for.")
      else none

/-- The pair of two endpoints stood before, and stands. -/
def stood (before : Map Name Endpoint) (x : Name × Endpoint) : Bool :=
  (before.get x.1).any fun b =>
    b.password = x.2.password && b.url ≠ "" && sameHost place b.url x.2.url

/-- Two endpoints, of a write: they have one password on two hosts. -/
def judgePair (before : Map Name Endpoint) (typed : List Name) (x y : Name × Endpoint) : Option String :=
  if x.2.password ≠ y.2.password then none
  else if sameHost place x.2.url y.2.url then none
  else if x.1 ∈ typed ∨ y.1 ∈ typed then none
  else if stood place before x && stood place before y then none
  else some ("The " ++ label x.1 ++ " (" ++ hostOf place x.2.url ++ ") and the " ++ label y.1 ++ " (" ++
    hostOf place y.2.url ++ ") would now use the same saved password on different hosts: type each " ++
    "one's own password - a saved password is never sent to a host it was not typed for.")

/-- Every element of a list, with every later one. -/
def pairs {α : Type} : List α → List (α × α)
  | [] => []
  | x :: l => l.map (fun y => (x, y)) ++ pairs l

/-- `move_refusal`; nothing where it is the empty sentence. -/
def moveRefusal (before after : Map Name Endpoint) (typed : List Name) (modeChanged : Bool) :
    Option String :=
  let shown := after.entries.filter fun x => x.2.password ≠ "" ∧ x.2.url ≠ "" ∧ x.2.source = .own
  (after.entries.findSome? fun x => judge place before after typed modeChanged x.1 x.2).or
    ((pairs shown).findSome? fun x => judgePair place before typed x.1 x.2)

-- the guards that are registered for a change of where Jen reaches Kea and the databases
variable (checkIdentity : Ini → Ini → Option String)

/-- `_write_parser`: the file after it, or the sentence that it raises. -/
def writeParser (file : String) (parser : Ini) (typed : List Name) : Except String String :=
  match Ini.read file with
  | none => .error "the configuration file cannot be read"
  | some before =>
    match (checkIdentity before parser).or (moveRefusal place (resolve place before)
      (resolve place parser) typed (isDirect before ≠ isDirect parser)) with
    | some sentence => .error sentence
    | none => .ok (Ini.write parser)

/-! ## Runs of writes -/

/-- A write: the configuration that an edit made, and the endpoints whose password was typed in it. -/
structure Write where
  parser : Ini
  typed : List Name

/-- The writes are accepted, one after the other, from a file on. -/
def Run : String → List Write → Prop
  | _, [] => True
  | file, w :: ws =>
    writeParser place checkIdentity file w.parser w.typed = .ok (Ini.write w.parser) ∧
      Run (Ini.write w.parser) ws

/-- The file after the writes. -/
def after : String → List Write → String
  | file, [] => file
  | _, w :: ws => after (Ini.write w.parser) ws

/-- The pairs of a password and a host that a configuration sends it to. -/
def sent (p : Ini) : List (String × String) :=
  ((resolve place p).entries.filter fun x => x.2.password ≠ "" ∧ x.2.url ≠ "").map fun x =>
    (x.2.password, hostOf place x.2.url)

/-- The endpoint draws its password from another one: it is that one, or inherits from one that does. -/
inductive Draws (p : Ini) : Name → Name → Prop
  | own (name : Name) : Draws p name name
  | inherited {name parent holder : Name} : (endpoint place p name).source = .inherited parent →
      Draws p parent holder → Draws p name holder

/-- The endpoint's password is typed, for itself or for the endpoint that it draws it from. -/
def Typed (p : Ini) (typed : List Name) (name : Name) : Prop := ∃ holder ∈ typed, Draws place p name holder

/-- Every password that the new configuration sends somewhere was sent there before, or is typed. -/
def Kept (before now : Ini) (typed : List Name) : Prop :=
  ∀ x ∈ (resolve place now).entries, x.2.password ≠ "" → x.2.url ≠ "" →
    (x.2.password, hostOf place x.2.url) ∈ sent place before ∨ Typed place now typed x.1

/-- No write of the run sends a saved password elsewhere. -/
def NeverRedirected : String → List Write → Prop
  | _, [] => True
  | file, w :: ws =>
    (∀ before now, Ini.read file = some before → Ini.read (Ini.write w.parser) = some now →
        Kept place before now w.typed) ∧
      NeverRedirected (Ini.write w.parser) ws

end Writer

/-! ## What a write that is not refused keeps -/

section Steps

variable {place : String → Option String} {p before now : Ini} {name : Name} {typed : List Name}
  {modeChanged : Bool}

theorem hostOf_eq {a b : String} (h : sameHost place a b = true) : hostOf place a = hostOf place b := by
  obtain ⟨host, ha, hb⟩ := sameHost_iff.mp h
  rw [hostOf, hostOf, ha, hb]
  rfl

/-- Every password that is sent somewhere is the own one of an endpoint on that host. -/
theorem exists_holder (hpass : (endpoint place p name).password ≠ "")
    (hurl : (endpoint place p name).url ≠ "") : ∃ holder, Draws place p name holder ∧
      (endpoint place p holder).source = .own ∧
        (endpoint place p holder).password = (endpoint place p name).password ∧
          (endpoint place p holder).url ≠ "" ∧
            hostOf place (endpoint place p holder).url = hostOf place (endpoint place p name).url ∧
              (name ∈ names p → holder ∈ names p) := by
  induction name using inheritsFrom_induction with
  | h name ih =>
    cases hown : ownPassword p name with
    | some value =>
      obtain ⟨hvalue, -, hsource⟩ := @endpoint_of_own place _ _ _ hown
      rw [if_pos (hvalue ▸ hpass)] at hsource
      exact ⟨name, .own name, hsource, rfl, hurl, rfl, id⟩
    | none =>
      cases hparent : inheritsFrom name with
      | none => exact absurd (endpoint_of_root hown hparent).1 hpass
      | some parent =>
        by_cases hblank : (endpoint place p parent).password = ""
        · exact absurd (endpoint_blank hown hparent (.inl hblank)).1 hpass
        · by_cases hsame : sameHost place (endpoint place p parent).url (endpoint place p name).url = true
          · obtain ⟨hvalue, -, hsource⟩ := endpoint_inherits hown hparent hblank hurl hsame
            obtain ⟨holder, hdraws, hholder, hpassword, hholderUrl, hhost, hmem⟩ :=
              ih parent hparent hblank (ne_blank_of_sameHost hsame)
            exact ⟨holder, .inherited hsource hdraws, hholder, hpassword.trans hvalue.symm, hholderUrl,
              hhost.trans (hostOf_eq hsame), fun h => hmem (parent_mem_names hparent h)⟩
          · have hother := Bool.eq_false_iff.mpr hsame
            exact absurd (endpoint_withheld hown hparent hblank hurl hother).1 hpass

/-- An address that is derived is the parent's. -/
theorem url_of_derived (hrides : ridesTheControlAgent name = true)
    (hderived : (endpoint place p name).urlOwn = false) (hurl : (endpoint place p name).url ≠ "") :
    ∃ parent, parentOf name = some parent ∧ inheritsFrom name = some parent ∧
      (endpoint place p name).url = (endpoint place p parent).url := by
  have hurlOf : ∀ parent : Endpoint, has p (urlKey name).1 (urlKey name).2 = false →
      derivedUrl p name parent ≠ "" → derivedUrl p name parent = parent.url := by
    intro parent habsent hne
    unfold derivedUrl at hne ⊢
    rw [habsent, if_neg Bool.false_ne_true] at hne ⊢
    split_ifs at hne ⊢ with hdirect
    · exact absurd rfl hne
    · rfl
  cases name with
  | kea6 =>
    have heq : (endpoint place p .kea6).url = derivedUrl p .kea6 (kea p) := url_inherit
    have hown : (endpoint place p .kea6).urlOwn = has p _ _ := urlOwn_inherit
    exact ⟨.kea, rfl, rfl, heq.trans (hurlOf _ (hown ▸ hderived) (heq ▸ hurl))⟩
  | d2 =>
    have heq : (endpoint place p .d2).url = derivedUrl p .d2 (kea p) := url_inherit
    have hown : (endpoint place p .d2).urlOwn = has p _ _ := urlOwn_inherit
    exact ⟨.kea, rfl, rfl, heq.trans (hurlOf _ (hown ▸ hderived) (heq ▸ hurl))⟩
  | serverV6 n =>
    have heq : (endpoint place p (.serverV6 n)).url = derivedUrl p (.serverV6 n) (server place p n) :=
      url_inherit
    have hown : (endpoint place p (.serverV6 n)).urlOwn = has p _ _ := urlOwn_inherit
    exact ⟨.server n, rfl, rfl, heq.trans (hurlOf _ (hown ▸ hderived) (heq ▸ hurl))⟩
  | serverD2 n =>
    have heq : (endpoint place p (.serverD2 n)).url = derivedUrl p (.serverD2 n) (server place p n) :=
      url_inherit
    have hown : (endpoint place p (.serverD2 n)).urlOwn = has p _ _ := urlOwn_inherit
    exact ⟨.server n, rfl, rfl, heq.trans (hurlOf _ (hown ▸ hderived) (heq ▸ hurl))⟩
  | _ => cases hrides

theorem mem_sent {password host : String} {e : Endpoint} (h : (resolve place p).get name = some e)
    (hpass : e.password = password) (hne : password ≠ "") (hurl : e.url ≠ "")
    (hhost : hostOf place e.url = host) : (password, host) ∈ sent place p := by
  have hmem : (name, e) ∈ (resolve place p).entries := Map.mem_entries.mpr h
  refine List.mem_map.mpr ⟨(name, e), List.mem_filter.mpr ⟨hmem, ?_⟩, ?_⟩
  · simp [hpass, hne, hurl]
  · rw [hpass, hhost]

/-- A switch of the mode alone points no password elsewhere. -/
theorem sameHost_of_rePointed (hmem : name ∈ names now) (hurl : (endpoint place now name).url ≠ "")
    (h : rePointedByTheModeAlone place name (endpoint place now name) (resolve place before)
      (resolve place now) = true) : ∃ b, (resolve place before).get name = some b ∧ b.url ≠ "" ∧
        sameHost place b.url (endpoint place now name).url = true := by
  unfold rePointedByTheModeAlone at h
  by_cases hskip : ((endpoint place now name).urlOwn || !ridesTheControlAgent name) = true
  · rw [if_pos hskip] at h
    cases h
  · rw [if_neg hskip] at h
    obtain ⟨hderived, hrides⟩ := Bool.or_eq_false_iff.mp (Bool.eq_false_iff.mpr hskip)
    obtain ⟨parent, hparentOf, hinherits, heq⟩ :=
      url_of_derived (by simpa using hrides) hderived hurl
    have hparent := parent_mem_names hinherits hmem
    have hafter : (resolve place now).get parent = some (endpoint place now parent) := by
      rw [get_resolve, if_pos hparent]
    rw [hparentOf, Option.bind_some, Option.bind_some, hafter] at h
    dsimp only [Option.any_some] at h
    split at h
    · next b bParent hb hbParent =>
      by_cases hother : (decide (b.url = "") || !sameHost place b.url bParent.url) = true
      · rw [if_pos hother] at h
        cases h
      · rw [if_neg hother] at h
        obtain ⟨hne, hsame⟩ := Bool.or_eq_false_iff.mp (Bool.eq_false_iff.mpr hother)
        have hsame' : sameHost place b.url bParent.url = true := by simpa using hsame
        refine ⟨b, hb, by simpa using hne, ?_⟩
        rw [heq]
        exact sameHost_trans hsame' h
    · cases h

/-- An own password that is not typed, and not refused, was the endpoint's on that host before. -/
theorem sent_of_judge (hown : (endpoint place now name).source = .own) (htyped : name ∉ typed)
    (hpass : (endpoint place now name).password ≠ "") (hurl : (endpoint place now name).url ≠ "")
    (hmem : name ∈ names now)
    (hjudge : judge place (resolve place before) (resolve place now) typed modeChanged name
      (endpoint place now name) = none) :
    ((endpoint place now name).password, hostOf place (endpoint place now name).url) ∈
      sent place before := by
  unfold judge at hjudge
  rw [if_neg (not_not.mpr hown), if_neg htyped] at hjudge
  by_cases hchanged : (endpoint place now name).password ≠ "" ∧ ((resolve place before).get name).all
      (fun b => b.password ≠ (endpoint place now name).password) = true
  · rw [if_pos hchanged] at hjudge
    cases hjudge
  · rw [if_neg hchanged, if_neg hurl] at hjudge
    -- the value is the one that was there
    obtain ⟨b, hb, hvalue⟩ : ∃ b, (resolve place before).get name = some b ∧
        b.password = (endpoint place now name).password := by
      cases hb : (resolve place before).get name with
      | none => exact absurd ⟨hpass, by rw [hb]; rfl⟩ hchanged
      | some b =>
        refine ⟨b, rfl, ?_⟩
        by_contra hne
        exact hchanged ⟨hpass, by rw [hb]; simpa using hne⟩
    by_cases hmode : (modeChanged && rePointedByTheModeAlone place name (endpoint place now name)
        (resolve place before) (resolve place now)) = true
    · obtain ⟨b', hb', hne, hsame⟩ :=
        sameHost_of_rePointed hmem hurl (Bool.and_eq_true_iff.mp hmode).2
      obtain rfl := Option.some.inj (hb.symm.trans hb')
      exact mem_sent hb hvalue hpass hne (hostOf_eq hsame)
    · rw [if_neg hmode, hb] at hjudge
      dsimp only at hjudge
      rw [if_neg (not_not.mpr hvalue)] at hjudge
      by_cases hfirst : b.url = ""
      · rw [if_pos hfirst] at hjudge
        cases hjudge
      · rw [if_neg hfirst] at hjudge
        by_cases hmoved : (!sameHost place b.url (endpoint place now name).url) = true
        · rw [if_pos hmoved] at hjudge
          cases hjudge
        · have hsame : sameHost place b.url (endpoint place now name).url = true := by
            simpa using hmoved
          exact mem_sent hb hvalue hpass hfirst (hostOf_eq hsame)

/-- A write that is not refused keeps every password where it was, or has it typed. -/
theorem kept_of_moveRefusal (h : moveRefusal place (resolve place before) (resolve place now) typed
    modeChanged = none) : Kept place before now typed := by
  intro x hx hpass hurl
  obtain ⟨hmem, heq⟩ := mem_resolve.mp hx
  rw [heq] at hpass hurl ⊢
  obtain ⟨holder, hdraws, hown, hpassword, hholderUrl, hhost, hholderMem⟩ := exists_holder hpass hurl
  by_cases htyped : holder ∈ typed
  · exact .inr ⟨holder, htyped, hdraws⟩
  · left
    have hentry : (holder, endpoint place now holder) ∈ (resolve place now).entries :=
      mem_resolve.mpr ⟨hholderMem hmem, rfl⟩
    have hjudge := List.findSome?_eq_none_iff.mp (Option.or_eq_none_iff.mp h).1 _ hentry
    have hsent := sent_of_judge hown htyped (hpassword ▸ hpass) hholderUrl (hholderMem hmem) hjudge
    rwa [hpassword, hhost] at hsent

end Steps

/-! ## What a run keeps -/

section Runs

variable {place : String → Option String} {checkIdentity : Ini → Ini → Option String}

/-- A write that is refused by nothing is accepted. -/
theorem writeParser_ok {file : String} {before parser : Ini} {typed : List Name}
    (hread : Ini.read file = some before) (hcheck : checkIdentity before parser = none)
    (hmove : moveRefusal place (resolve place before) (resolve place parser) typed
      (isDirect before ≠ isDirect parser) = none) :
    writeParser place checkIdentity file parser typed = .ok (Ini.write parser) := by
  unfold writeParser
  rw [hread]
  dsimp only
  rw [hcheck, hmove]
  rfl

/-- A write that is accepted, of a configuration that a file holds: the new file is that configuration, and
keeps every password. -/
theorem kept_of_writeParser {file file' : String} {parser : Ini} {typed : List Name}
    (h : writeParser place checkIdentity file parser typed = .ok file') (hregular : Ini.Regular parser) :
    Ini.read (Ini.write parser) = some parser ∧
      ∃ before, Ini.read file = some before ∧ Kept place before parser typed := by
  refine ⟨Ini.read_write hregular, ?_⟩
  unfold writeParser at h
  cases hread : Ini.read file with
  | none =>
    rw [hread] at h
    cases h
  | some before =>
    rw [hread] at h
    dsimp only at h
    cases hrefusal : (checkIdentity before parser).or (moveRefusal place (resolve place before)
        (resolve place parser) typed (isDirect before ≠ isDirect parser)) with
    | some sentence =>
      rw [hrefusal] at h
      cases h
    | none => exact ⟨before, rfl, kept_of_moveRefusal (Option.or_eq_none_iff.mp hrefusal).2⟩

theorem neverRedirected_of_regular {file : String} {writes : List Write}
    (hrun : Run place checkIdentity file writes) (hregular : ∀ w ∈ writes, Ini.Regular w.parser) :
    NeverRedirected place file writes := by
  induction writes generalizing file with
  | nil => trivial
  | cons w writes ih =>
    obtain ⟨hwrite, hrest⟩ := hrun
    obtain ⟨hback, before, hbefore, hkept⟩ :=
      kept_of_writeParser hwrite (hregular w List.mem_cons_self)
    refine ⟨fun before' now hbefore' hnow => ?_, ih hrest fun w' hw' => hregular w' (List.mem_cons_of_mem w hw')⟩
    obtain rfl := Option.some.inj (hbefore.symm.trans hbefore')
    obtain rfl := Option.some.inj (hback.symm.trans hnow)
    exact hkept

/-- A password is typed for a host in a write: an endpoint on it draws the password from one that is named
in the write. -/
def TypedIn (place : String → Option String) (w : Write) (pair : String × String) : Prop :=
  ∃ x ∈ (resolve place w.parser).entries, (x.2.password, hostOf place x.2.url) = pair ∧
    Typed place w.parser w.typed x.1

/-- What the last file sends was sent by the first, or typed for that host on the way. -/
theorem sent_after {file : String} {writes : List Write} {first last : Ini} {pair : String × String}
    (hrun : Run place checkIdentity file writes) (hregular : ∀ w ∈ writes, Ini.Regular w.parser)
    (hfirst : Ini.read file = some first) (hlast : Ini.read (after file writes) = some last)
    (hpair : pair ∈ sent place last) :
    pair ∈ sent place first ∨ ∃ w ∈ writes, TypedIn place w pair := by
  induction writes generalizing file first with
  | nil =>
    obtain rfl := Option.some.inj (hfirst.symm.trans hlast)
    exact .inl hpair
  | cons w writes ih =>
    obtain ⟨hwrite, hrest⟩ := hrun
    obtain ⟨hback, before, hbefore, hkept⟩ :=
      kept_of_writeParser hwrite (hregular w List.mem_cons_self)
    obtain rfl := Option.some.inj (hfirst.symm.trans hbefore)
    rcases ih hrest (fun w' hw' => hregular w' (List.mem_cons_of_mem w hw')) hback hlast with
      hsent | ⟨w', hw', htyped⟩
    · obtain ⟨x, hx, rfl⟩ := List.mem_map.mp hsent
      obtain ⟨hentry, hsend⟩ := List.mem_filter.mp hx
      have hboth : x.2.password ≠ "" ∧ x.2.url ≠ "" := by simpa using hsend
      rcases hkept x hentry hboth.1 hboth.2 with hbefore' | htyped
      · exact .inl hbefore'
      · exact .inr ⟨w, List.mem_cons_self, x, hentry, rfl, htyped⟩
    · exact .inr ⟨w', List.mem_cons_of_mem w hw', htyped⟩

/-- In every run of accepted writes whose configurations a file holds, no write sends a saved password
elsewhere, and the last file sends none where neither the first did nor a write of the run had it typed. -/
theorem neverRedirected_run (place : String → Option String) (checkIdentity : Ini → Ini → Option String)
    (file : String) (writes : List Write) (hrun : Run place checkIdentity file writes)
    (hregular : ∀ w ∈ writes, Ini.Regular w.parser) :
    NeverRedirected place file writes ∧
      ∀ first last, Ini.read file = some first → Ini.read (after file writes) = some last →
        ∀ pair ∈ sent place last, pair ∈ sent place first ∨ ∃ w ∈ writes, TypedIn place w pair :=
  ⟨neverRedirected_of_regular hrun hregular, fun _ _ hfirst hlast _ hpair =>
    sent_after hrun hregular hfirst hlast hpair⟩

/-- The host in an address of ASCII without a user, in lower case. -/
def plainHost (u : String) : Option String :=
  let cs := u.toList
  let cs := if "http://".toList <+: cs then cs.drop "http://".length else cs
  let host := cs.takeWhile fun c => c ≠ ':' ∧ c ≠ '/'
  if host = [] then none else some (String.ofList host)

/-- A Kea server whose IPv6 daemon has a password of its own, at the address of the Control Agent. -/
def savedIni : Ini :=
  ⟨.empty, .ofList [("kea", .ofList [("api_url", "http://kea:8000"), ("api_pass", "secret")]),
    ("kea6", .ofList [("api_user", "jen"), ("api_pass", "secret6")])]⟩

/-- The user of the IPv6 daemon, with a carriage return in it. -/
def returnWrite : Write := ⟨set savedIni "kea6" "api_user" "jen\rapi_url = http://elsewhere:8000", []⟩

/-- What is read of it. -/
def returnedIni : Ini :=
  ⟨.empty, .ofList [("kea", .ofList [("api_url", "http://kea:8000"), ("api_pass", "secret")]),
    ("kea6", .ofList [("api_user", "jen"), ("api_url", "http://elsewhere:8000"),
      ("api_pass", "secret6")])]⟩

/-- A carriage return in a value becomes a line end when the file is read: the user brings an address along,
and the daemon's saved password goes to it. -/
theorem not_neverRedirected_return :
    Run plainHost (fun _ _ => none) (Ini.write savedIni) [returnWrite] ∧
      ¬ NeverRedirected plainHost (Ini.write savedIni) [returnWrite] := by
  have hread : Ini.read (Ini.write savedIni) = some savedIni := by decide +kernel
  have hmove : moveRefusal plainHost (resolve plainHost savedIni) (resolve plainHost returnWrite.parser)
      returnWrite.typed (isDirect savedIni ≠ isDirect returnWrite.parser) = none := by decide +kernel
  have haccept : writeParser plainHost (fun _ _ => none) (Ini.write savedIni) returnWrite.parser
      returnWrite.typed = .ok (Ini.write returnWrite.parser) := writeParser_ok hread rfl hmove
  refine ⟨⟨haccept, trivial⟩, fun h => ?_⟩
  have hback : Ini.read (Ini.write returnWrite.parser) = some returnedIni := by decide +kernel
  have hentry : (Name.kea6, endpoint plainHost returnedIni .kea6) ∈
      (resolve plainHost returnedIni).entries := mem_resolve.mpr ⟨by simp [names], rfl⟩
  have hpass : (endpoint plainHost returnedIni .kea6).password = "secret6" := by decide +kernel
  have hurl : (endpoint plainHost returnedIni .kea6).url = "http://elsewhere:8000" := by decide +kernel
  have hne : "secret6" ≠ "" ∧ "http://elsewhere:8000" ≠ "" := by decide
  have hnew : ("secret6", hostOf plainHost "http://elsewhere:8000") ∉ sent plainHost savedIni := by
    decide +kernel
  have hkept := h.1 _ _ hread hback _ hentry
  dsimp only at hkept
  rw [hpass, hurl] at hkept
  rcases hkept hne.1 hne.2 with hsent | ⟨holder, hmem, -⟩
  · exact hnew hsent
  · cases hmem

/-- The IPv6 daemon at an address and with a password of its own, both new, the password typed. -/
def typedWrite : Write :=
  ⟨set (set savedIni "kea6" "api_url" "http://kea6:8006") "kea6" "api_pass" "other6", [.kea6]⟩

/-- A move with the password typed is accepted. -/
theorem neverRedirected_typed :
    NeverRedirected plainHost (Ini.write savedIni) [typedWrite] ∧
      ∀ first last, Ini.read (Ini.write savedIni) = some first →
        Ini.read (after (Ini.write savedIni) [typedWrite]) = some last →
          ∀ pair ∈ sent plainHost last, pair ∈ sent plainHost first ∨
            ∃ w ∈ [typedWrite], TypedIn plainHost w pair := by
  have hread : Ini.read (Ini.write savedIni) = some savedIni := by decide +kernel
  have hmove : moveRefusal plainHost (resolve plainHost savedIni) (resolve plainHost typedWrite.parser)
      typedWrite.typed (isDirect savedIni ≠ isDirect typedWrite.parser) = none := by decide +kernel
  have haccept : writeParser plainHost (fun _ _ => none) (Ini.write savedIni) typedWrite.parser
      typedWrite.typed = .ok (Ini.write typedWrite.parser) := writeParser_ok hread rfl hmove
  refine neverRedirected_run plainHost (fun _ _ => none) _ _ ⟨haccept, trivial⟩ fun w hw => ?_
  rw [List.mem_singleton.mp hw]
  decide +kernel

end Runs

end JenKea.Credentials
