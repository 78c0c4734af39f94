import JenKea.Lib.Loop
import JenKea.Credentials.Convert

/-!
# The answers that a configure starts from

`--answers` of `tools/config_merge.py` prints what the live file holds for the questions of the wizard, one line for
each, and `_seed_answers_from_live` of `install.sh` reads the lines. A value of several lines, or with backslashes in
it, reaches the wizard as it stands in the file.
-/

namespace JenKea.ConfigMerge

open Credentials (value)

/-- `WIZARD_ANSWERS`. -/
def WIZARD_ANSWERS : List (String × String × String) :=
  [("kea", "api_url", "JEN_KEA_API_URL"), ("kea", "api_user", "JEN_KEA_API_USER"), ("kea", "api_pass", "JEN_KEA_API_PASS"),
    ("kea_db", "host", "JEN_KEA_DB_HOST"), ("kea_db", "user", "JEN_KEA_DB_USER"),
    ("kea_db", "password", "JEN_KEA_DB_PASS"), ("kea_db", "database", "JEN_KEA_DB_NAME"),
    ("kea_ssh", "host", "JEN_KEA_SSH_HOST"), ("kea_ssh", "user", "JEN_KEA_SSH_USER"),
    ("kea_ssh", "kea_conf", "JEN_KEA_CONF"), ("ddns", "dns_provider", "JEN_DDNS_PROVIDER"),
    ("ddns", "api_url", "JEN_DDNS_URL"), ("ddns", "api_token", "JEN_DDNS_TOKEN"), ("ddns", "log_path", "JEN_DDNS_LOG"),
    ("ddns", "forward_zone", "JEN_DDNS_ZONE")]

/-- `WIZARD_DEFAULTS`. -/
def WIZARD_DEFAULTS : List (String × String × String) :=
  [("server", "http_port", "JEN_HTTP_PORT"), ("server", "https_port", "JEN_HTTPS_PORT"), ("jen_db", "host", "JEN_DB_HOST"),
    ("jen_db", "user", "JEN_DB_USER"), ("jen_db", "database", "JEN_DB_NAME")]

/-- `answers_from`. -/
def answersFrom (live : Ini) : List (String × String) :=
  WIZARD_ANSWERS.filterMap fun x => (value live x.1 x.2.1).map fun v => (x.2.2, v)

/-- `defaults_from`. -/
def defaultsFrom (live : Ini) : List (String × String) :=
  WIZARD_DEFAULTS.filterMap fun x =>
    ((value live x.1 x.2.1).filter fun v => v ≠ "").map fun v => ("DEFAULT_" ++ x.2.2, v)

/-- `escape_line`. -/
def escapeLine (v : List Char) : List Char :=
  let v := v.flatMap fun c => if c = '\\' then ['\\', '\\'] else [c]
  let v := v.filter fun c => c ≠ '\r'
  v.flatMap fun c => if c = '\n' then ['\\', 'n'] else [c]

/-- What `--answers` prints. -/
def printAnswers (live : Ini) : List Char :=
  (answersFrom live ++ defaultsFrom live).flatMap fun x =>
    (x.1.toList ++ '=' :: escapeLine x.2.toList) ++ ['\n']

/-! ## What the shell reads -/

/-- `printf '%b'`; nothing where there is another escape than a backslash or a line end. -/
def printfB : List Char → Option (List Char)
  | [] => some []
  | '\\' :: '\\' :: cs => (printfB cs).map fun v => '\\' :: v
  | '\\' :: 'n' :: cs => (printfB cs).map fun v => '\n' :: v
  | '\\' :: _ => none
  | c :: cs => (printfB cs).map fun v => c :: v

/-- The lines of what a command printed: the substitution takes the line ends off its end. -/
def shellLines (out : List Char) : Ini.Lines := ((out.reverse.dropWhile (· = '\n')).reverse).splitOn '\n'

/-- `"${line%%=*}"`. -/
def nameOf (line : List Char) : List Char := line.takeWhile (· ≠ '=')

/-- `"${line#*=}"`. -/
def valueOf (line : List Char) : List Char := if '=' ∈ line then (line.dropWhile (· ≠ '=')).drop 1 else line

/-- `^(DEFAULT_)?JEN_[A-Z_]+$`. -/
def isAnswerName (name : List Char) : Bool :=
  let rest := if "DEFAULT_".toList <+: name then name.drop "DEFAULT_".length else name
  "JEN_".toList <+: rest ∧ rest.drop 4 ≠ [] ∧ (rest.drop 4).all fun c => c.isUpper || c = '_'

/-- The answers of `_seed_answers_from_live`. -/
def seeds (out : List Char) : Option (List (String × String)) :=
  ((shellLines out).filter fun line => isAnswerName (nameOf line)).mapM fun line =>
    (printfB (valueOf line)).map fun v => (String.ofList (nameOf line), String.ofList v)

section Lines

variable {v line : List Char} {live : Ini} {name text : String}

/-- What is escaped is read back. -/
theorem printfB_escapeLine (h : '\r' ∉ v) : printfB (escapeLine v) = some v := by
  induction v with
  | nil => rfl
  | cons c v ih =>
    rw [List.mem_cons, not_or] at h
    have ih := ih h.2
    unfold escapeLine at ih ⊢
    dsimp only at ih ⊢
    rw [List.flatMap_cons, List.filter_append, List.flatMap_append]
    by_cases hback : c = '\\'
    · have hhead : (List.filter (fun c => decide (c ≠ '\r')) (if c = '\\' then ['\\', '\\'] else [c])).flatMap
          (fun c => if c = '\n' then ['\\', 'n'] else [c]) = ['\\', '\\'] := by
        rw [if_pos hback]
        decide
      rw [hhead, List.cons_append, List.singleton_append, printfB, ih, hback]
      rfl
    · by_cases hline : c = '\n'
      · have hhead : (List.filter (fun c => decide (c ≠ '\r')) (if c = '\\' then ['\\', '\\'] else [c])).flatMap
            (fun c => if c = '\n' then ['\\', 'n'] else [c]) = ['\\', 'n'] := by
          rw [if_neg hback, hline]
          decide
        rw [hhead, List.cons_append, List.singleton_append, printfB, ih, hline]
        rfl
      · have hhead : (List.filter (fun c => decide (c ≠ '\r')) (if c = '\\' then ['\\', '\\'] else [c])).flatMap
            (fun c => if c = '\n' then ['\\', 'n'] else [c]) = [c] := by
          have hkeep : decide (c ≠ '\r') = true := decide_eq_true fun heq => h.1 heq.symm
          rw [if_neg hback, List.filter_cons, if_pos hkeep, List.filter_nil, List.flatMap_singleton, if_neg hline]
        rw [hhead, List.singleton_append, printfB.eq_5 _ _ (fun _ heq _ => hback heq) (fun _ heq _ => hback heq)
          (fun heq => hback heq), ih]
        rfl

theorem newline_notMem_escapeLine : '\n' ∉ escapeLine v := by
  unfold escapeLine
  dsimp only
  intro hmem
  obtain ⟨c, -, hc⟩ := List.mem_flatMap.mp hmem
  split_ifs at hc with hline
  · exact absurd hc (by decide)
  · exact hline (List.mem_singleton.mp hc).symm

/-- Every name is one that the shell takes. -/
theorem names_spec (h : (name, text) ∈ answersFrom live ++ defaultsFrom live) :
    isAnswerName name.toList = true ∧ '=' ∉ name.toList ∧ '\n' ∉ name.toList ∧
      ∃ sec key, value live sec key = some text := by
  have hanswers : ∀ x ∈ WIZARD_ANSWERS, isAnswerName x.2.2.toList = true ∧ '=' ∉ x.2.2.toList ∧ '\n' ∉ x.2.2.toList := by
    decide
  have hdefaults : ∀ x ∈ WIZARD_DEFAULTS, isAnswerName ("DEFAULT_" ++ x.2.2).toList = true ∧
      '=' ∉ ("DEFAULT_" ++ x.2.2).toList ∧ '\n' ∉ ("DEFAULT_" ++ x.2.2).toList := by
    decide
  rcases List.mem_append.mp h with h | h
  · obtain ⟨x, hx, hmap⟩ := List.mem_filterMap.mp h
    obtain ⟨v, hv, heq⟩ := Option.map_eq_some_iff.mp hmap
    obtain ⟨rfl, rfl⟩ := Prod.mk.inj heq
    obtain ⟨hname, hequal, hline⟩ := hanswers x hx
    exact ⟨hname, hequal, hline, x.1, x.2.1, hv⟩
  · obtain ⟨x, hx, hmap⟩ := List.mem_filterMap.mp h
    obtain ⟨v, hv, heq⟩ := Option.map_eq_some_iff.mp hmap
    obtain ⟨rfl, rfl⟩ := Prod.mk.inj heq
    obtain ⟨hname, hequal, hline⟩ := hdefaults x hx
    exact ⟨hname, hequal, hline, x.1, x.2.1, (Option.filter_eq_some_iff.mp hv).1⟩

/-- The line of an answer. -/
def answerLine (x : String × String) : List Char := x.1.toList ++ '=' :: escapeLine x.2.toList

theorem nameOf_answerLine {x : String × String} (h : '=' ∉ x.1.toList) : nameOf (answerLine x) = x.1.toList := by
  have hkeep : ∀ c ∈ x.1.toList, decide (c ≠ '=') = true := fun c hc => decide_eq_true fun heq => h (heq ▸ hc)
  unfold nameOf answerLine
  rw [List.takeWhile_append_of_pos hkeep, List.takeWhile_cons_of_neg (by decide), List.append_nil]

theorem valueOf_answerLine {x : String × String} (h : '=' ∉ x.1.toList) :
    valueOf (answerLine x) = escapeLine x.2.toList := by
  have hkeep : ∀ c ∈ x.1.toList, decide (c ≠ '=') = true := fun c hc => decide_eq_true fun heq => h (heq ▸ hc)
  have hmem : '=' ∈ answerLine x := List.mem_append_right _ List.mem_cons_self
  unfold valueOf
  rw [if_pos hmem, answerLine, List.dropWhile_append_of_pos hkeep, List.dropWhile_cons_of_neg (by decide)]
  rfl

/-- The lines of what is printed, where there is an answer. -/
theorem shellLines_flatMap {ls : Ini.Lines} (hne : ls ≠ []) (hlines : ∀ l ∈ ls, l ≠ [] ∧ '\n' ∉ l) :
    shellLines (ls.flatMap fun l => l ++ ['\n']) = ls := by
  obtain ⟨init, last, rfl⟩ : ∃ init last, ls = init ++ [last] :=
    ⟨ls.dropLast, ls.getLast hne, (List.dropLast_append_getLast hne).symm⟩
  obtain ⟨hlast, hnewline⟩ := hlines last (List.mem_append_right _ List.mem_cons_self)
  have hstrip : ((((init ++ [last]).flatMap fun l => l ++ ['\n']).reverse).dropWhile (· = '\n')).reverse =
      (init.flatMap fun l => l ++ ['\n']) ++ last := by
    obtain ⟨front, c, rfl⟩ : ∃ front c, last = front ++ [c] :=
      ⟨last.dropLast, last.getLast hlast, (List.dropLast_append_getLast hlast).symm⟩
    have hc : ¬ decide (c = '\n') = true := by
      rw [decide_eq_true_iff]
      rintro rfl
      exact hnewline (List.mem_append_right _ List.mem_cons_self)
    rw [List.flatMap_append, List.flatMap_singleton]
    simp [List.dropWhile_cons_of_pos, hc]
  have hsplit : ∀ init : Ini.Lines, (∀ l ∈ init, '\n' ∉ l) →
      ((init.flatMap fun l => l ++ ['\n']) ++ last).splitOn '\n' = init ++ [last] := by
    intro init
    induction init with
    | nil => exact fun _ => List.splitOn_eq_singleton hnewline
    | cons l init ih =>
      intro h
      rw [List.flatMap_cons, List.append_assoc, List.append_assoc, List.singleton_append,
        List.splitOn_append_cons_self_of_not_mem (h l List.mem_cons_self),
        ih fun l' hl' => h l' (List.mem_cons_of_mem l hl')]
      rfl
  unfold shellLines
  rw [hstrip, hsplit init fun l hl => (hlines l (List.mem_append_left _ hl)).2]

end Lines

/-- Of every file that can be read, the wizard starts from the answers that the file holds, each as it stands there. -/
theorem seeds_printAnswers (text : String) (live : Ini) (h : Ini.read text = some live) :
    seeds (printAnswers live) = some (answersFrom live ++ defaultsFrom live) := by
  have hprint : printAnswers live =
      ((answersFrom live ++ defaultsFrom live).map answerLine).flatMap fun l => l ++ ['\n'] := by
    rw [List.flatMap_map]
    rfl
  have hspec : ∀ x ∈ answersFrom live ++ defaultsFrom live, isAnswerName (nameOf (answerLine x)) = true ∧
      (printfB (valueOf (answerLine x))).map (fun v => (String.ofList (nameOf (answerLine x)), String.ofList v)) =
        some x := by
    intro x hx
    obtain ⟨hname, hequal, -, sec, key, hvalue⟩ := names_spec hx
    have hreturn : '\r' ∉ x.2.toList := (Credentials.regularValue_of_value (Ini.regular_of_read h) hvalue).noReturn
    rw [nameOf_answerLine hequal, valueOf_answerLine hequal, printfB_escapeLine hreturn, Option.map_some,
      String.ofList_toList, String.ofList_toList]
    exact ⟨hname, rfl⟩
  by_cases hempty : answersFrom live ++ defaultsFrom live = []
  · rw [hprint, hempty]
    decide
  · have hlines : shellLines (printAnswers live) = (answersFrom live ++ defaultsFrom live).map answerLine := by
      rw [hprint]
      refine shellLines_flatMap (fun hnil => hempty (List.map_eq_nil_iff.mp hnil)) fun l hl => ?_
      obtain ⟨x, hx, rfl⟩ := List.mem_map.mp hl
      obtain ⟨-, -, hnewline, -⟩ := names_spec hx
      refine ⟨fun hnil => ?_, fun hmem => ?_⟩
      · exact absurd (List.append_eq_nil_iff.mp hnil).2 (List.cons_ne_nil _ _)
      · rcases List.mem_append.mp hmem with hmem | hmem
        · exact hnewline hmem
        · rcases List.mem_cons.mp hmem with heq | hmem
          · exact absurd heq (by decide)
          · exact newline_notMem_escapeLine hmem
    have hkept : ((answersFrom live ++ defaultsFrom live).map answerLine).filter (fun line => isAnswerName (nameOf line)) =
        (answersFrom live ++ defaultsFrom live).map answerLine := by
      refine List.filter_eq_self.mpr fun l hl => ?_
      obtain ⟨x, hx, rfl⟩ := List.mem_map.mp hl
      exact (hspec x hx).1
    unfold seeds
    rw [hlines, hkept, List.mapM_map]
    exact (Loop.mapM_eq_pure fun x hx => (hspec x hx).2).trans (congrArg some (List.map_id _))

/-- A password with a backslash, and a path of two lines. -/
theorem seeds_printAnswers_lines :
    seeds (printAnswers ⟨.empty, .ofList [("kea", .ofList [("api_pass", "a\\nb"), ("api_url", "http://kea\n8000")])]⟩) =
      some (answersFrom ⟨.empty, .ofList [("kea", .ofList [("api_pass", "a\\nb"), ("api_url", "http://kea\n8000")])]⟩ ++
        defaultsFrom ⟨.empty, .ofList [("kea", .ofList [("api_pass", "a\\nb"), ("api_url", "http://kea\n8000")])]⟩) :=
  seeds_printAnswers "[kea]\napi_pass = a\\nb\napi_url = http://kea\n 8000\n" _ (by decide +kernel)

end JenKea.ConfigMerge
