import JenKea.Lib.IniComments
import JenKea.Lib.IniParts
import JenKea.ConfigMerge.Merge

/-!
# No configure sends a saved password elsewhere

`main` of `tools/config_merge.py` asks of what it merged what Jen's own writer asks of a save, `move_refusal`, with the
endpoints whose password the wizard received. Jen's saves and the installer's configures write the same file, in any
order: whatever is written, a password goes to a host where it went before, or for which somebody typed it.
-/

namespace JenKea.ConfigMerge

open Credentials

section Main

-- the host in an address that is not blank
variable (place : String → Option String)

/-- The wizard received a password for the endpoint: one that is not blank and not the snapshot's. -/
def isTyped (snap wizard : Ini) (name : Name) : Bool :=
  let key := passwordKey name
  has wizard key.1 key.2 && get wizard key.1 key.2 "" ≠ "" &&
    !(has snap key.1 key.2 && get snap key.1 key.2 "" = get wizard key.1 key.2 "")

/-- `credential_refusal`; nothing within where it is the empty sentence. -/
def credentialRefusal (snapshot live wizard text : String) : Option (Option String) := do
  let snap ← Ini.read snapshot
  let live ← Ini.read live
  let wizard ← Ini.read wizard
  let p ← Ini.read text
  let before := resolve place live
  let after := resolve place p
  return moveRefusal place before after ((before.keys ++ after.keys).filter (isTyped snap wizard))
    (isDirect live ≠ isDirect p)

/-- Where `str.splitlines` ends a line. -/
def isLineEnd (c : Char) : Bool :=
  c ∈ ['\n', '\x0b', '\x0c', '\r', '\x1c', '\x1d', '\x1e', '\x85', '\u2028', '\u2029']

/-- `text.splitlines()`, of a text without carriage returns. -/
def splitlines : List Char → Ini.Lines
  | [] => []
  | c :: cs =>
    if isLineEnd c then [] :: splitlines cs
    else
      match splitlines cs with
      | [] => [[c]]
      | l :: ls => (c :: l) :: ls

/-- The comments that the wizard's file starts with. -/
def comments (wizard : String) : Ini.Lines :=
  ((splitlines (Ini.universal wizard.toList)).take 3).filter fun l => l.head? = some '#'

/-- What `main` ends with. -/
inductive Outcome
  | unreadable
  | refused (sentence : String)
  | written (text : String)
  deriving DecidableEq

/-- The text that `main` gives. -/
def withComments (comments : Ini.Lines) (text : String) : String :=
  String.ofList (((comments ++ if comments = [] then [] else [[]]).flatMap fun l => l ++ ['\n']) ++ text.toList)

/-- `main`. -/
def main (snapshot live wizard : String) : Outcome :=
  match merge snapshot live wizard with
  | none => .unreadable
  | some text =>
    match credentialRefusal place snapshot live wizard text with
    | none => .unreadable
    | some (some sentence) => .refused sentence
    | some none => .written (withComments (comments wizard) text)

-- the guards that are registered for a change of where Jen reaches Kea and the databases
variable (checkIdentity : Ini → Ini → Option String)

/-- A write of the configuration file: a save of Jen's, or a configure of the installer's with the copy of the file
that it began with. -/
inductive Step
  | save (w : Write)
  | configure (snapshot wizard : String)

/-- The file after a step, where it is not refused. -/
def Step.apply (file : String) : Step → Option String
  | .save w => (writeParser place checkIdentity file w.parser w.typed).toOption
  | .configure snapshot wizard =>
    match main place snapshot file wizard with
    | .written text => some text
    | _ => none

/-- The file after steps that are not refused. -/
def runSteps (file : String) (steps : List Step) : Option String :=
  steps.foldlM (Step.apply place checkIdentity) file

/-- The wizard was given the password for an endpoint from which one on the host draws it. -/
def Given (snapshot wizard : String) (pair : String × String) : Prop :=
  ∃ snap answers p, Ini.read snapshot = some snap ∧ Ini.read wizard = some answers ∧
    ∃ x ∈ (resolve place p).entries, (x.2.password, hostOf place x.2.url) = pair ∧ ∃ holder,
      Draws place p x.1 holder ∧ value answers (passwordKey holder).1 (passwordKey holder).2 = some pair.1 ∧
        pair.1 ≠ "" ∧ value snap (passwordKey holder).1 (passwordKey holder).2 ≠ some pair.1

/-- Somebody typed the password for the host in the step. -/
def Step.Types (pair : String × String) : Step → Prop
  | .save w => TypedIn place w pair
  | .configure snapshot wizard => Given place snapshot wizard pair

/-- Jen saves a configuration that a file holds. -/
def Step.Regular : Step → Prop
  | .save w => Ini.Regular w.parser
  | .configure _ _ => True

end Main

section Sends

variable {place : String → Option String} {checkIdentity : Ini → Ini → Option String} {p snap live wizard : Ini}
  {name holder : Name} {cs l : List Char}

/-- The password of an endpoint is that of the one it draws it from. -/
theorem password_of_draws (h : Draws place p name holder) :
    (endpoint place p name).password = (endpoint place p holder).password := by
  induction h with
  | own name => rfl
  | @inherited name parent holder hsource _ ih =>
    refine Eq.trans ?_ ih
    cases hown : ownPassword p name with
    | some v =>
      obtain ⟨-, -, hown'⟩ := @endpoint_of_own place _ _ _ hown
      rw [hown'] at hsource
      split_ifs at hsource
    | none =>
      cases hparent : inheritsFrom name with
      | none =>
        rw [(endpoint_of_root hown hparent).2.2] at hsource
        cases hsource
      | some parent' =>
        by_cases hblank : (endpoint place p parent').password = "" ∨ (endpoint place p name).url = ""
        · rw [(endpoint_blank hown hparent hblank).2.2] at hsource
          cases hsource
        · rw [not_or] at hblank
          by_cases hsame : sameHost place (endpoint place p parent').url (endpoint place p name).url = true
          · obtain ⟨hvalue, -, hinherited⟩ := endpoint_inherits hown hparent hblank.1 hblank.2 hsame
            rw [hinherited] at hsource
            rw [hvalue, Source.inherited.inj hsource]
          · rw [(endpoint_withheld hown hparent hblank.1 hblank.2 (Bool.eq_false_iff.mpr hsame)).2.2] at hsource
            cases hsource

/-- A password that the wizard received is what the merged configuration has for the endpoint. -/
theorem given_of_isTyped (h : isTyped snap wizard name = true) : ∃ v,
    value wizard (passwordKey name).1 (passwordKey name).2 = some v ∧ v ≠ "" ∧
      value snap (passwordKey name).1 (passwordKey name).2 ≠ some v ∧
        (endpoint place (merged snap live wizard) name).password = v := by
  unfold isTyped at h
  simp only [Bool.and_eq_true, decide_eq_true_eq, Bool.not_eq_true', Bool.and_eq_false_iff,
    decide_eq_false_iff_not] at h
  obtain ⟨⟨hsome, hne⟩, hsnap⟩ := h
  rw [has_eq_value] at hsome hsnap
  rw [get_eq_value] at hne
  rw [get_eq_value, get_eq_value] at hsnap
  obtain ⟨v, hv⟩ := Option.isSome_iff_exists.mp hsome
  rw [hv, Option.getD_some] at hne hsnap
  have hother : value snap (passwordKey name).1 (passwordKey name).2 ≠ some v := by
    intro heq
    rw [heq] at hsnap
    exact hsnap.elim (fun h => by cases h) fun h => h rfl
  have hgiven : given snap wizard (passwordKey name).1 (passwordKey name).2 = some v :=
    Option.filter_eq_some_iff.mpr ⟨hv, by simpa using hother⟩
  have hown : own (merged snap live wizard) (passwordKey name).1 (passwordKey name).2 = some v := by
    rw [own_merged, hgiven]
    rfl
  have hvalue : value (merged snap live wizard) (passwordKey name).1 (passwordKey name).2 = some v := by
    unfold own at hown
    obtain ⟨options, hoptions, hget⟩ := Option.bind_eq_some_iff.mp hown
    unfold value
    rw [hoptions, Option.bind_some, hget]
    rfl
  have hpassword : ownPassword (merged snap live wizard) name = some v := by
    unfold ownPassword
    rw [has_eq_value, get_eq_value, hvalue]
    rfl
  exact ⟨v, hv, hne, hother, (endpoint_of_own hpassword).1⟩

/-! ## The comments -/

theorem isLineEnd_of_mem_splitlines (h : l ∈ splitlines cs) : ∀ c ∈ l, isLineEnd c = false := by
  induction cs generalizing l with
  | nil => cases h
  | cons c cs ih =>
    rw [splitlines] at h
    split_ifs at h with hc
    · rcases List.mem_cons.mp h with rfl | h
      · intro d hd
        cases hd
      · exact ih h
    · split at h
      · rw [List.mem_singleton.mp h]
        intro d hd
        rw [List.mem_singleton.mp hd]
        exact Bool.eq_false_iff.mpr hc
      · next l' ls hsplit =>
        have hl' : ∀ d ∈ l', isLineEnd d = false := ih (by rw [hsplit]; exact List.mem_cons_self)
        rcases List.mem_cons.mp h with rfl | h
        · intro d hd
          rcases List.mem_cons.mp hd with rfl | hd
          · exact Bool.eq_false_iff.mpr hc
          · exact hl' d hd
        · exact ih (by rw [hsplit]; exact List.mem_cons_of_mem l' h)

/-- The comments change nothing of what is read. -/
theorem read_withComments (wizard text : String) : Ini.read (withComments (comments wizard) text) = Ini.read text := by
  have hcomment : ∀ l ∈ comments wizard, ('\n' ∉ l ∧ '\r' ∉ l) ∧ l.head? = some '#' := by
    intro l hl
    obtain ⟨hmem, hhead⟩ := List.mem_filter.mp hl
    have hends := isLineEnd_of_mem_splitlines (List.mem_of_mem_take hmem)
    have hnewline : ¬ isLineEnd '\n' = false := by decide
    have hreturn : ¬ isLineEnd '\r' = false := by decide
    exact ⟨⟨fun h => hnewline (hends _ h), fun h => hreturn (hends _ h)⟩, of_decide_eq_true hhead⟩
  have hskipped : ∀ l ∈ comments wizard, Ini.Skipped l := by
    intro l hl
    obtain ⟨d, rest, rfl⟩ : ∃ d rest, l = d :: rest := List.exists_cons_of_ne_nil (by
      rintro rfl
      cases (hcomment _ hl).2)
    obtain rfl : d = '#' := Option.some.inj (hcomment _ hl).2
    left
    have hstrip : Ini.strip ('#' :: rest) = Ini.rstrip ('#' :: rest) := rfl
    rw [hstrip, Ini.rstrip_cons (by decide)]
    rfl
  unfold withComments
  refine Ini.read_skipped (fun l hl => ?_) (fun l hl => ?_) text
  · rcases List.mem_append.mp hl with hl | hl
    · exact (hcomment l hl).1
    · split_ifs at hl
      · cases hl
      · rw [List.mem_singleton.mp hl]
        exact ⟨List.not_mem_nil, List.not_mem_nil⟩
  · rcases List.mem_append.mp hl with hl | hl
    · exact hskipped l hl
    · split_ifs at hl
      · cases hl
      · rw [List.mem_singleton.mp hl]
        exact .inr rfl

/-! ## What a step keeps -/

/-- A configure that is not refused writes the merged configuration, which keeps every password where it was, or has it
from the wizard. -/
theorem written_main {snapshot live wizard text : String} (h : main place snapshot live wizard = .written text) :
    ∃ s l w, Ini.read snapshot = some s ∧ Ini.read live = some l ∧ Ini.read wizard = some w ∧
      Ini.read text = some (merged s l w) ∧ ∃ typed, (∀ name ∈ typed, isTyped s w name = true) ∧
        Kept place l (merged s l w) typed := by
  unfold main at h
  split at h
  · cases h
  · next body hmerge =>
    obtain ⟨s, l, w, hs, hl, hw, rfl⟩ := merge_eq_some hmerge
    have hread : Ini.read (Ini.write (merged s l w)) = some (merged s l w) := read_merge hl hw
    split at h
    · cases h
    · cases h
    · next hrefusal =>
      unfold credentialRefusal at hrefusal
      rw [hs, hl, hw, hread] at hrefusal
      refine ⟨s, l, w, hs, hl, hw, ?_, _, fun name hname => (List.mem_filter.mp hname).2,
        kept_of_moveRefusal (Option.some.inj hrefusal)⟩
      rw [← Outcome.written.inj h, read_withComments, hread]

/-- A save reads the file and writes what it is given. -/
theorem apply_save {file next : String} {w : Write}
    (h : (Step.save w).apply place checkIdentity file = some next) :
    writeParser place checkIdentity file w.parser w.typed = .ok (Ini.write w.parser) ∧ next = Ini.write w.parser := by
  unfold Step.apply writeParser at h
  unfold writeParser
  cases hfile : Ini.read file with
  | none =>
    rw [hfile] at h
    cases h
  | some before =>
    rw [hfile] at h
    dsimp only at h ⊢
    split at h
    · cases h
    · exact ⟨rfl, (Option.some.inj h).symm⟩

theorem merge_eq {snapshot live wizard : String} (hs : Ini.read snapshot = some snap)
    (hl : Ini.read live = some p) {w : Ini} (hw : Ini.read wizard = some w) :
    merge snapshot live wizard = some (Ini.write (merged snap p w)) := by
  unfold merge
  rw [hs, hl, hw]
  rfl

/-- A configure that nothing refuses, of a wizard's file without comments. -/
theorem apply_configure {snapshot file wizard : String} {w q : Ini} (hs : Ini.read snapshot = some snap)
    (hp : Ini.read file = some p) (hw : Ini.read wizard = some w) (hq : merged snap p w = q)
    (hback : Ini.read (Ini.write q) = some q)
    (hmove : moveRefusal place (resolve place p) (resolve place q)
      (((resolve place p).keys ++ (resolve place q).keys).filter (isTyped snap w)) (isDirect p ≠ isDirect q) = none)
    (hcomments : comments wizard = []) :
    (Step.configure snapshot wizard).apply place checkIdentity file = some (Ini.write q) := by
  have hmerge : merge snapshot file wizard = some (Ini.write q) := hq ▸ merge_eq hs hp hw
  have hrefusal : credentialRefusal place snapshot file wizard (Ini.write q) = some none := by
    unfold credentialRefusal
    rw [hs, hp, hw, hback]
    exact congrArg some hmove
  have hplain : withComments (comments wizard) (Ini.write q) = Ini.write q := by
    rw [hcomments]
    unfold withComments
    rw [if_pos rfl, List.append_nil, List.flatMap_nil, List.nil_append, String.ofList_toList]
  have hmain : main place snapshot file wizard = .written (Ini.write q) := by
    unfold main
    rw [hmerge]
    dsimp only
    rw [hrefusal]
    exact congrArg Outcome.written hplain
  unfold Step.apply
  dsimp only
  rw [hmain]

theorem runSteps_cons {file next last : String} {s : Step} {steps : List Step}
    (h : s.apply place checkIdentity file = some next) (hrest : runSteps place checkIdentity next steps = some last) :
    runSteps place checkIdentity file (s :: steps) = some last := by
  unfold runSteps
  rw [List.foldlM_cons, h]
  exact hrest

/-- What a step sends somewhere was sent there before it, or is typed in it. -/
theorem sent_step {file next : String} {s : Step} (hregular : s.Regular)
    (h : s.apply place checkIdentity file = some next) : ∃ p q, Ini.read file = some p ∧ Ini.read next = some q ∧
      ∀ pair ∈ sent place q, pair ∈ sent place p ∨ s.Types place pair := by
  have hsends : ∀ {q : Ini} {pair : String × String}, pair ∈ sent place q → ∃ x ∈ (resolve place q).entries,
      (x.2.password, hostOf place x.2.url) = pair ∧ x.2.password ≠ "" ∧ x.2.url ≠ "" := by
    intro q pair hpair
    obtain ⟨x, hx, heq⟩ := List.mem_map.mp hpair
    obtain ⟨hentry, hsend⟩ := List.mem_filter.mp hx
    have hboth : x.2.password ≠ "" ∧ x.2.url ≠ "" := by simpa using hsend
    exact ⟨x, hentry, heq, hboth⟩
  cases s with
  | save w =>
    obtain ⟨hwrite, rfl⟩ := apply_save h
    obtain ⟨hback, before, hbefore, hkept⟩ := kept_of_writeParser hwrite hregular
    refine ⟨before, w.parser, hbefore, hback, fun pair hpair => ?_⟩
    obtain ⟨x, hentry, heq, hpass, hurl⟩ := hsends hpair
    rcases hkept x hentry hpass hurl with hsent | htyped
    · exact .inl (heq ▸ hsent)
    · exact .inr ⟨x, hentry, heq, htyped⟩
  | configure snapshot wizard =>
    have hmain : main place snapshot file wizard = .written next := by
      unfold Step.apply at h
      dsimp only at h
      split at h
      · next text hmain => rw [hmain, Option.some.inj h]
      · cases h
    obtain ⟨s, l, w, hs, hl, hw, hread, typed, htyped, hkept⟩ := written_main hmain
    refine ⟨l, _, hl, hread, fun pair hpair => ?_⟩
    obtain ⟨x, hentry, heq, hpass, hurl⟩ := hsends hpair
    rcases hkept x hentry hpass hurl with hsent | ⟨holder, hholder, hdraws⟩
    · exact .inl (heq ▸ hsent)
    · right
      obtain ⟨v, hv, hne, hsnap, hpassword⟩ := @given_of_isTyped place s l w holder (htyped holder hholder)
      have hpair' : pair.1 = v := by
        rw [← heq, (mem_resolve.mp hentry).2, password_of_draws hdraws, hpassword]
      exact ⟨s, w, _, hs, hw, x, hentry, heq, holder, hdraws, by rw [hpair']; exact hv, by rw [hpair']; exact hne,
        by rw [hpair']; exact hsnap⟩

end Sends

/-- The wizard's answers: the address as it is, and a new password. -/
def newPassword : String := "[kea]\napi_url = http://kea:8000\napi_pass = other\n"

/-- What is read of them. -/
def answersIni : Ini :=
  ⟨.empty, .ofList [("kea", .ofList [("api_url", "http://kea:8000"), ("api_pass", "other")])]⟩

/-- What the configure writes. -/
def configuredIni : Ini := Credentials.set savedIni "kea" "api_pass" "other"

/-- What is saved after it: the name of the server is new. -/
def namedIni : Ini := Credentials.set configuredIni "kea" "name" "Kea 1"

end JenKea.ConfigMerge
