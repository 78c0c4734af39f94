import JenKea.Lib.Dict
import JenKea.Lib.Text

/-!
# The logger of an investigation

`jen/services/kea_config_edit.py` puts the logger `kea-dhcp4` of a configuration at DEBUG and back.
What to put back stands in the configuration itself: a marker in the `user-context` of the logger,
whose `restore` object says what the logger was. `jen-kea-helper` puts the same logger back on the
host, from a `restore` object that it kept: `restoreLogger_eq_clear` shows that the two do the same.
-/

namespace JenKea.Investigation

open Json

/-- `INVESTIGATION_KEY`. -/
def investigationKey : String := "jen-investigation"

/-- `INVESTIGATION_LOGGER`. -/
def investigationLogger : String := "kea-dhcp4"

/-- `INVESTIGATION_SEVERITY`. -/
def investigationSeverity : String := "DEBUG"

/-- `INVESTIGATION_DEBUGLEVEL`. -/
def investigationDebuglevel : ℤ := 55

/-- The word of a `restore` object for a key that was not there. -/
def absent : Json := .str "absent"

/-- What an edit of the logger answers with. -/
inductive Code where
  | ok
  | nochange
  | unsupported
  | markerInvalid
  | nothing
  deriving DecidableEq, Repr

/-! ## The logger in a configuration -/

/-- `_dhcp4_loggers`: the `Dhcp4` section and its `loggers`, which `create` makes an empty list where
there is none. -/
def dhcp4Loggers (cfg : Fields) (create : Bool) : Option (Fields × List Json) :=
  match lookup "Dhcp4" cfg with
  | some (.obj sec) =>
    match lookup "loggers" sec with
    | none | some .null => some (if create then set "loggers" (.arr []) sec else sec, [])
    | some (.arr loggers) => some (sec, loggers)
    | some _ => none
  | _ => none

/-- The element of `loggers` is an entry of the logger. -/
def isEntry : Json → Bool
  | .obj fs => lookup "name" fs == some (.str investigationLogger)
  | _ => false

/-- `_logger_entry`: the first entry of the logger. -/
def loggerEntry : List Json → Option Fields
  | [] => none
  | .obj fs :: loggers => if isEntry (.obj fs) then some fs else loggerEntry loggers
  | _ :: loggers => loggerEntry loggers

/-- The list with the entry that `_logger_entry` finds changed in place. -/
def replaceEntry (entry : Fields) : List Json → List Json
  | [] => []
  | x :: loggers => if isEntry x then .obj entry :: loggers else x :: replaceEntry entry loggers

/-- `loggers.remove(entry)`. An element that equals the entry has its name, so the first such element
is the one that `_logger_entry` finds. -/
def removeEntry (loggers : List Json) : List Json := loggers.eraseP isEntry

/-- The configuration with these loggers in its section. -/
def putLoggers (cfg sec : Fields) (loggers : List Json) : Fields :=
  set "Dhcp4" (.obj (set "loggers" (.arr loggers) sec)) cfg

/-- What stands under the key of the marker in the `user-context` of the logger. -/
def markerOf (cfg : Fields) : Option Json := do
  let (_, loggers) ← dhcp4Loggers cfg false
  let entry ← loggerEntry loggers
  match lookup "user-context" entry with
  | some (.obj context) => lookup investigationKey context
  | _ => none

/-! ## The `restore` object -/

/-- `_RESTORE_KEYS`. -/
def restoreKeys : List String := ["severity", "debuglevel"]

/-- A severity that can be put back: a text that is not blank. -/
def isSeverity : Json → Bool
  | .str s => Text.strip s != ""
  | _ => false

/-- A debuglevel that can be put back: an integer. -/
def isDebuglevel : Json → Bool
  | .int _ => true
  | _ => false

/-- Why a `restore` object does not say what a key was. -/
def keyProblem (restore : Fields) (key : String) : Option String :=
  match lookup key restore with
  | none => some ("its restore object has no `" ++ key ++ "`")
  | some value =>
    if value = absent then none
    else if key = "severity" ∧ ¬ isSeverity value then some "its restored `severity` is not a value"
    else if key = "debuglevel" ∧ ¬ isDebuglevel value then
      some "its restored `debuglevel` is not a value"
    else none

/-- `restore_problem`: why a `restore` object does not say how to put the logger back, or the empty
text. -/
def restoreProblem : Json → String
  | .obj restore =>
    match lookup "created" restore with
    | some created =>
      if created = .bool true ∧ restore.length = 1 then "" else "its `created` marker is malformed"
    | none => (restoreKeys.findSome? (keyProblem restore)).getD ""
  | _ => "its restore object is missing or is not an object"

/-- `validate_investigation_marker`: why the marker of the logger cannot be trusted, or the empty
text. -/
def validateInvestigationMarker (cfg : Fields) : String :=
  match markerOf cfg with
  | none => ""
  | some (.obj marker) => restoreProblem ((lookup "restore" marker).getD .null)
  | some _ => "the marker is not an object"

/-- What a `restore` object says to put back of a key. -/
def putBack (key : String) (old : Json) (entry : Fields) : Fields :=
  if old = absent then pop key entry else set key old entry

/-- The entry without the marker, and without a `user-context` that the marker alone was in. -/
def dropMarker (context entry : Fields) : Fields :=
  if (pop investigationKey context).isEmpty then pop "user-context" entry
  else set "user-context" (.obj (pop investigationKey context)) entry

/-! ## The edits of Jen -/

/-- `set_investigation_logging`: the logger is at DEBUG until `until`, and its marker says what it
was. Where a marker stands already only the time moves. -/
def setInvestigationLogging (cfg : Fields) (untilIso : String) : Fields × Code :=
  if validateInvestigationMarker cfg ≠ "" then (cfg, .markerInvalid)
  else
    match dhcp4Loggers cfg true with
    | none => (cfg, .unsupported)
    | some (sec, loggers) =>
      let created := (loggerEntry loggers).isNone
      let entry := (loggerEntry loggers).getD [("name", .str investigationLogger)]
      match (lookup "user-context" entry).getD (.obj []) with
      | .obj context =>
        let restore : Option Json :=
          match lookup investigationKey context with
          | some (.obj marker) =>
            let old := (lookup "restore" marker).getD .null
            if restoreProblem old ≠ "" then none else some old
          | _ =>
            if created then some (.obj [("created", .bool true)])
            else some (.obj [("severity", (lookup "severity" entry).getD absent),
              ("debuglevel", (lookup "debuglevel" entry).getD absent)])
        match restore with
        | none => (cfg, .markerInvalid)
        | some restore =>
          let marker := .obj [("until", .str untilIso), ("restore", restore)]
          let entry := set "user-context" (.obj (set investigationKey marker context))
            (set "debuglevel" (.int investigationDebuglevel)
              (set "severity" (.str investigationSeverity) entry))
          let loggers := if created then loggers ++ [.obj entry] else replaceEntry entry loggers
          (putLoggers cfg sec loggers, .ok)
      | _ => (cfg, .unsupported)

/-- `clear_investigation_logging`: the logger as the edit before found it. `ahead` stands for `now`:
it says of an `until` that it can be read and lies after that time. -/
def clearInvestigationLogging (cfg : Fields) (ahead : Option (Json → Bool)) : Fields × Code :=
  if validateInvestigationMarker cfg ≠ "" then (cfg, .markerInvalid)
  else
    match dhcp4Loggers cfg false with
    | none => (cfg, .nochange)
    | some (sec, loggers) =>
      match loggerEntry loggers with
      | none => (cfg, .nochange)
      | some entry =>
        match lookup "user-context" entry with
        | some (.obj context) =>
          match lookup investigationKey context with
          | some (.obj marker) =>
            if ahead.any fun isAhead => isAhead ((lookup "until" marker).getD .null) then
              (cfg, .nochange)
            else
              match lookup "restore" marker with
              | some (.obj restore) =>
                if ((lookup "created" restore).getD .null).falsy then
                  let entry := restoreKeys.foldl (fun entry key =>
                    putBack key ((lookup key restore).getD absent) entry) entry
                  (putLoggers cfg sec (replaceEntry (dropMarker context entry) loggers), .ok)
                else (putLoggers cfg sec (removeEntry loggers), .ok)
              -- the first check lets no other `restore` pass
              | _ => (cfg, .markerInvalid)
          | _ => (cfg, .nochange)
        | _ => (cfg, .nochange)

/-! ## The helper on the host -/

/-- `_restore_shape_ok`: the `restore` object is one of the two that Jen writes. -/
def restoreShapeOk : Json → Bool
  | .obj restore =>
    if keysAre ["created"] restore then lookup "created" restore == some (.bool true)
    else if !keysAre ["severity", "debuglevel"] restore then false
    else
      let severity := (lookup "severity" restore).getD .null
      let level := (lookup "debuglevel" restore).getD .null
      (severity == absent || isSeverity severity) && (level == absent || isDebuglevel level)
  | _ => false

/-- `str(value or "").upper() == "DEBUG"`: no value but a text has such a text. -/
def isDebug : Json → Bool
  | .str s => s.toUpper == "DEBUG"
  | _ => false

/-- `_restore_logger`: the logger as the `restore` object has it, when it carries the marker or is
still at DEBUG 55. `none` stands for the exception at an object that lacks a key. -/
def restoreLogger (cfg : Json) (restore : Fields) : Option (Json × Code) :=
  match cfg with
  | .obj fields =>
    match lookup "Dhcp4" fields with
    | some (.obj sec) =>
      match lookup "loggers" sec with
      | some (.arr loggers) =>
        match loggerEntry loggers with
        | none => some (cfg, .nothing)
        | some entry =>
          let context : Option Fields :=
            match lookup "user-context" entry with
            | some (.obj context) =>
              if (lookup investigationKey context).isSome then some context else none
            | _ => none
          let atLevel := isDebug ((lookup "severity" entry).getD .null) &&
            ((lookup "debuglevel" entry).getD .null).pyEq (.int investigationDebuglevel)
          if context.isNone && !atLevel then some (cfg, .nothing)
          else if ((lookup "created" restore).getD .null).falsy then do
            let entry ← restoreKeys.foldlM (fun entry key => do
              let old ← lookup key restore
              return putBack key old entry) entry
            let entry := (context.map (dropMarker · entry)).getD entry
            return (.obj (putLoggers fields sec (replaceEntry entry loggers)), .ok)
          else some (.obj (putLoggers fields sec (removeEntry loggers)), .ok)
      | _ => some (cfg, .nothing)
    | _ => some (cfg, .nothing)
  | _ => some (cfg, .nothing)

/-! ## The two agree -/

theorem loggerEntry_some {loggers : List Json} {entry : Fields}
    (h : loggerEntry loggers = some entry) : isEntry (.obj entry) := by
  induction loggers with
  | nil => simp [loggerEntry] at h
  | cons x loggers ih =>
    cases x with
    | obj fs =>
      rw [loggerEntry] at h
      split_ifs at h with hfs
      · rw [← Option.some.inj h]
        exact hfs
      · exact ih h
    | _ => exact ih h

/-- Where a logger carries a marker: the section, the list, the entry, and its `user-context`. -/
structure Carries (cfg sec : Fields) (loggers : List Json) (entry context : Fields)
    (marker : Json) : Prop where
  dhcp4 : lookup "Dhcp4" cfg = some (.obj sec)
  list : lookup "loggers" sec = some (.arr loggers)
  found : loggerEntry loggers = some entry
  inEntry : lookup "user-context" entry = some (.obj context)
  inContext : lookup investigationKey context = some marker

section Carries

variable {cfg sec : Fields} {loggers : List Json} {entry context : Fields} {marker : Json}

theorem Carries.dhcp4Loggers_eq (h : Carries cfg sec loggers entry context marker) (create : Bool) :
    dhcp4Loggers cfg create = some (sec, loggers) := by
  rw [dhcp4Loggers, h.dhcp4]
  dsimp only
  rw [h.list]

theorem Carries.markerOf_eq (h : Carries cfg sec loggers entry context marker) :
    markerOf cfg = some marker := by
  rw [markerOf, h.dhcp4Loggers_eq]
  dsimp only [Option.bind_eq_bind, Option.bind_some]
  rw [h.found, Option.bind_some, h.inEntry]
  exact h.inContext

/-- A marker is somewhere. -/
theorem exists_carries (h : markerOf cfg = some marker) :
    ∃ sec loggers entry context, Carries cfg sec loggers entry context marker := by
  unfold markerOf at h
  obtain ⟨⟨sec, loggers⟩, hloggers, hbind⟩ := Option.bind_eq_some_iff.mp h
  obtain ⟨entry, hentry, hmarker⟩ := Option.bind_eq_some_iff.mp hbind
  clear h hbind
  split at hmarker
  · next context hcontext =>
    unfold dhcp4Loggers at hloggers
    split at hloggers
    · next sec' hsec =>
      split at hloggers
      -- a list that is absent has no entry
      · obtain ⟨-, rfl⟩ := Prod.mk.inj (Option.some.inj hloggers)
        cases hentry
      · obtain ⟨-, rfl⟩ := Prod.mk.inj (Option.some.inj hloggers)
        cases hentry
      · next list hlist =>
        obtain ⟨rfl, rfl⟩ := Prod.mk.inj (Option.some.inj hloggers)
        exact ⟨sec', list, entry, context, hsec, hlist, hentry, hcontext, hmarker⟩
      · cases hloggers
    · cases hloggers
  · cases hmarker

end Carries

/-- A dictionary with two keys and no more has no third. -/
theorem lookup_of_keysAre {restore : Fields} {j k l : String} (h : keysAre [j, k] restore = true)
    (hjk : j ≠ k) (hj : j ≠ l) (hk : k ≠ l) : lookup l restore = none := by
  simp only [keysAre, List.all_cons, List.all_nil, Bool.and_true, Bool.and_eq_true, beq_iff_eq,
    List.length_cons, List.length_nil] at h
  obtain ⟨hlength, hsomej, hsomek⟩ := h
  obtain ⟨⟨a, v⟩, ⟨b, w⟩, rfl⟩ := List.length_eq_two.mp hlength
  simp only [lookup_cons, lookup_nil] at hsomej hsomek ⊢
  grind

/-- The two objects that the helper accepts. -/
theorem restoreShapeOk_cases {restore : Fields} (h : restoreShapeOk (.obj restore) = true) :
    (lookup "created" restore = some (.bool true) ∧ restore.length = 1) ∨
      ∃ severity level, lookup "created" restore = none ∧
        lookup "severity" restore = some severity ∧ lookup "debuglevel" restore = some level ∧
        (severity = absent ∨ isSeverity severity) ∧ (level = absent ∨ isDebuglevel level) := by
  rw [restoreShapeOk] at h
  split_ifs at h with hcreated hkeys
  · simp only [keysAre, Bool.and_eq_true, beq_iff_eq] at hcreated h
    exact .inl ⟨h, hcreated.1⟩
  · rw [Bool.not_eq_true', Bool.not_eq_false] at hkeys
    have hnone := lookup_of_keysAre hkeys (l := "created") (by decide) (by decide) (by decide)
    simp only [keysAre, List.all_cons, List.all_nil, Bool.and_true, Bool.and_eq_true,
      Option.isSome_iff_exists] at hkeys
    obtain ⟨-, ⟨severity, hseverity⟩, level, hlevel⟩ := hkeys
    simp only [hseverity, hlevel, Option.getD_some, Bool.and_eq_true, Bool.or_eq_true,
      beq_iff_eq] at h
    exact .inr ⟨severity, level, hnone, hseverity, hlevel, h.1, h.2⟩

/-- What the helper accepts as a `restore` object Jen accepts. -/
theorem restoreProblem_of_shapeOk {restore : Json} (h : restoreShapeOk restore = true) :
    restoreProblem restore = "" := by
  cases restore with
  | obj restore =>
    rw [restoreProblem]
    rcases restoreShapeOk_cases h with
      ⟨hcreated, hlength⟩ | ⟨severity, level, hnone, hseverity, hlevel, hokSeverity, hokLevel⟩
    · rw [hcreated]
      exact if_pos ⟨rfl, hlength⟩
    · have hall : ∀ key ∈ restoreKeys, keyProblem restore key = none := by
        intro key hkey
        simp only [restoreKeys, List.mem_cons, List.not_mem_nil, or_false] at hkey
        rcases hkey with rfl | rfl
        · simp only [keyProblem, hseverity]
          grind
        · simp only [keyProblem, hlevel]
          grind
      rw [hnone]
      dsimp only
      rw [List.findSome?_eq_none_iff.mpr hall, Option.getD_none]
  | _ => cases h

/-- The logger of a configuration whose marker has a `restore` object that the helper accepts is put
back by the helper as Jen puts it back, and Jen accepts every object that the helper accepts. -/
theorem restoreLogger_eq_clear :
    (∀ (cfg marker restore : Fields), markerOf cfg = some (.obj marker) →
      lookup "restore" marker = some (.obj restore) → restoreShapeOk (.obj restore) = true →
      (clearInvestigationLogging cfg none).2 = .ok ∧
        restoreLogger (.obj cfg) restore =
          some (.obj (clearInvestigationLogging cfg none).1, .ok)) ∧
    ∀ restore, restoreShapeOk restore = true → restoreProblem restore = "" := by
  refine ⟨fun cfg marker restore hmarker hrestore hshape => ?_,
    fun restore => restoreProblem_of_shapeOk⟩
  obtain ⟨sec, loggers, entry, context, h⟩ := exists_carries hmarker
  have hvalid : validateInvestigationMarker cfg = "" := by
    rw [validateInvestigationMarker, hmarker]
    dsimp only
    rw [hrestore]
    exact restoreProblem_of_shapeOk hshape
  have hclear : clearInvestigationLogging cfg none =
      if ((lookup "created" restore).getD .null).falsy then
        (putLoggers cfg sec (replaceEntry (dropMarker context (restoreKeys.foldl (fun entry key =>
          putBack key ((lookup key restore).getD absent) entry) entry)) loggers), .ok)
      else (putLoggers cfg sec (removeEntry loggers), .ok) := by
    rw [clearInvestigationLogging, if_neg (not_not.mpr hvalid), h.dhcp4Loggers_eq]
    dsimp only
    rw [h.found]
    dsimp only
    rw [h.inEntry]
    dsimp only
    rw [h.inContext]
    dsimp only
    rw [hrestore]
    rfl
  have hhelper : restoreLogger (.obj cfg) restore =
      if ((lookup "created" restore).getD .null).falsy then do
        let entry ← restoreKeys.foldlM (fun entry key => do
          let old ← lookup key restore
          return putBack key old entry) entry
        return (.obj (putLoggers cfg sec (replaceEntry (dropMarker context entry) loggers)), .ok)
      else some (.obj (putLoggers cfg sec (removeEntry loggers)), .ok) := by
    unfold restoreLogger
    simp only [h.dhcp4, h.list, h.found, h.inEntry, h.inContext, Option.isSome_some, if_true,
      Option.isNone_some, Bool.false_and, Bool.false_eq_true, if_false, Option.map_some,
      Option.getD_some]
  rw [hclear, hhelper]
  split_ifs with hcreated
  · refine ⟨rfl, ?_⟩
    rcases restoreShapeOk_cases hshape with
      ⟨htrue, -⟩ | ⟨severity, level, -, hseverity, hlevel, -, -⟩
    · rw [htrue] at hcreated
      cases hcreated
    · simp [restoreKeys, hseverity, hlevel]
  · exact ⟨rfl, rfl⟩

/-- The `restore` object of a logger that was at WARN. -/
def warnRestore : Fields := [("severity", .str "WARN"), ("debuglevel", .int 0)]

/-- The marker with that object. -/
def warnMarker : Fields :=
  [("until", .str "2099-01-01T00:00:00+00:00"), ("restore", .obj warnRestore)]

/-- A configuration whose logger carries that marker. -/
def markedConfig : Fields :=
  [("Dhcp4", .obj [("valid-lifetime", .int 3600), ("loggers", .arr [.obj
    [("name", .str investigationLogger), ("severity", .str "DEBUG"), ("debuglevel", .int 55),
      ("user-context", .obj [(investigationKey, .obj warnMarker)])]])])]

theorem restoreLogger_eq_clear_warn :
    (clearInvestigationLogging markedConfig none).2 = .ok ∧
      restoreLogger (.obj markedConfig) warnRestore =
        some (.obj (clearInvestigationLogging markedConfig none).1, .ok) :=
  restoreLogger_eq_clear.1 markedConfig warnMarker warnRestore (by decide) (by decide) (by decide)

end JenKea.Investigation
