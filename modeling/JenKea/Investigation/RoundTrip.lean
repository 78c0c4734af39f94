import Mathlib.Data.List.Induction
import JenKea.Investigation.Logger

/-!
# There and back

`set_investigation_logging`, any number of times in a row, and `clear_investigation_logging` after it
give back the configuration that was there. The marker carries what the logger was, and a call that
finds one keeps what it carries, so the number of calls is nothing to what comes back.

Two things do not come back as they were: a list of loggers that was not there is an empty one, and a
`user-context` that was empty is gone.
-/

namespace JenKea.Investigation

open Json

/-! ## The entry in its list -/

/-- The list with an entry where its entry is, or at its end. -/
def placed (loggers : List Json) (entry : Fields) : List Json :=
  if (loggerEntry loggers).isNone then loggers ++ [.obj entry] else replaceEntry entry loggers

section List

variable {loggers : List Json} {entry entry' : Fields}

theorem isEntry_of_loggerEntry_none (h : loggerEntry loggers = none) :
    ∀ x ∈ loggers, isEntry x = false := by
  induction loggers with
  | nil => simp
  | cons x loggers ih =>
    have hx : isEntry x = false ∧ loggerEntry loggers = none := by
      cases x with
      | obj fs =>
        rw [loggerEntry] at h
        split_ifs at h with hfs
        exact ⟨by simpa using hfs, h⟩
      | _ => exact ⟨rfl, h⟩
    exact List.forall_mem_cons.mpr ⟨hx.1, ih hx.2⟩

theorem loggerEntry_append (h : loggerEntry loggers = none) (hentry : isEntry (.obj entry)) :
    loggerEntry (loggers ++ [.obj entry]) = some entry := by
  induction loggers with
  | nil => simp [loggerEntry, hentry]
  | cons x loggers ih =>
    cases x with
    | obj fs =>
      rw [loggerEntry] at h
      split_ifs at h with hfs
      rw [List.cons_append, loggerEntry, if_neg hfs, ih h]
    | _ => exact ih h

theorem loggerEntry_replaceEntry (h : (loggerEntry loggers).isSome)
    (hentry : isEntry (.obj entry)) : loggerEntry (replaceEntry entry loggers) = some entry := by
  induction loggers with
  | nil => simp [loggerEntry] at h
  | cons x loggers ih =>
    cases x with
    | obj fs =>
      rw [loggerEntry] at h
      rw [replaceEntry]
      split_ifs at h ⊢ with hfs
      · rw [loggerEntry, if_pos hentry]
      · rw [loggerEntry, if_neg hfs, ih h]
    | _ => exact ih h

/-- The entry that was placed is the one that is found. -/
theorem loggerEntry_placed (hentry : isEntry (.obj entry)) :
    loggerEntry (placed loggers entry) = some entry := by
  unfold placed
  split_ifs with h
  · exact loggerEntry_append (Option.isNone_iff_eq_none.mp h) hentry
  · exact loggerEntry_replaceEntry (by simpa [Option.isSome_iff_ne_none] using h) hentry

theorem replaceEntry_append (h : loggerEntry loggers = none) (hentry : isEntry (.obj entry)) :
    replaceEntry entry' (loggers ++ [.obj entry]) = loggers ++ [.obj entry'] := by
  have hnone := isEntry_of_loggerEntry_none h
  clear h
  induction loggers with
  | nil => simp [replaceEntry, hentry]
  | cons x loggers ih =>
    rw [List.forall_mem_cons] at hnone
    rw [List.cons_append, replaceEntry, if_neg (by simp [hnone.1]), ih hnone.2, List.cons_append]

theorem replaceEntry_replaceEntry (hentry : isEntry (.obj entry)) :
    replaceEntry entry' (replaceEntry entry loggers) = replaceEntry entry' loggers := by
  induction loggers with
  | nil => rfl
  | cons x loggers ih =>
    rw [replaceEntry, replaceEntry]
    split_ifs with hx
    · rw [replaceEntry, if_pos hentry]
    · rw [replaceEntry, if_neg hx, ih]

/-- An entry takes the place of the one that was placed. -/
theorem replaceEntry_placed (hentry : isEntry (.obj entry)) :
    replaceEntry entry' (placed loggers entry) = placed loggers entry' := by
  unfold placed
  split_ifs with h
  · exact replaceEntry_append (Option.isNone_iff_eq_none.mp h) hentry
  · exact replaceEntry_replaceEntry hentry

/-- The entry that is found takes its own place. -/
theorem replaceEntry_self (h : loggerEntry loggers = some entry) :
    replaceEntry entry loggers = loggers := by
  induction loggers with
  | nil => rfl
  | cons x loggers ih =>
    cases x with
    | obj fs =>
      rw [loggerEntry] at h
      rw [replaceEntry]
      split_ifs at h ⊢
      · rw [Option.some.inj h]
      · rw [ih h]
    | _ => exact congrArg _ (ih h)

/-- An entry that was added at the end is removed again. -/
theorem removeEntry_placed (h : loggerEntry loggers = none) (hentry : isEntry (.obj entry)) :
    removeEntry (placed loggers entry) = loggers := by
  have hnone := isEntry_of_loggerEntry_none h
  have hplaced : placed loggers entry = loggers ++ [.obj entry] := by simp [placed, h]
  rw [hplaced, removeEntry, List.eraseP_append_right _ (by simpa using hnone)]
  simp [hentry]

end List

/-! ## The list in its configuration -/

section Config

variable {cfg sec : Fields} {loggers loggers' : List Json}

theorem dhcp4Loggers_putLoggers (create : Bool) :
    dhcp4Loggers (putLoggers cfg sec loggers) create =
      some (set "loggers" (.arr loggers) sec, loggers) := by
  rw [dhcp4Loggers, putLoggers, lookup_set_self]
  dsimp only
  rw [lookup_set_self]

theorem putLoggers_putLoggers :
    putLoggers (putLoggers cfg sec loggers) (set "loggers" (.arr loggers) sec) loggers' =
      putLoggers cfg sec loggers' := by
  rw [putLoggers, putLoggers, set_set, set_set, putLoggers]

/-- A list that is there takes its own place. -/
theorem putLoggers_self (h : lookup "Dhcp4" cfg = some (.obj sec))
    (hlist : lookup "loggers" sec = some (.arr loggers)) : putLoggers cfg sec loggers = cfg := by
  rw [putLoggers, set_lookup hlist, set_lookup h]

theorem lookup_dhcp4 (h : dhcp4Loggers cfg false = some (sec, loggers)) :
    lookup "Dhcp4" cfg = some (.obj sec) := by
  unfold dhcp4Loggers at h
  split at h
  · next sec₀ hsec =>
    have heq : sec₀ = sec := by
      split at h
      · exact (Prod.mk.inj (Option.some.inj h)).1
      · exact (Prod.mk.inj (Option.some.inj h)).1
      · exact (Prod.mk.inj (Option.some.inj h)).1
      · cases h
    rw [← heq]
    exact hsec
  · cases h

/-- Making the list changes nothing that is put in its place. -/
theorem dhcp4Loggers_create (h : dhcp4Loggers cfg false = some (sec, loggers)) :
    ∃ sec', dhcp4Loggers cfg true = some (sec', loggers) ∧
      ∀ loggers', putLoggers cfg sec' loggers' = putLoggers cfg sec loggers' := by
  unfold dhcp4Loggers at h ⊢
  split at h
  · next sec₀ hsec =>
    split at h
    · next hlist =>
      obtain ⟨rfl, rfl⟩ := Prod.mk.inj (Option.some.inj h)
      exact ⟨_, rfl, fun loggers' => by simp [putLoggers, set_set]⟩
    · next hlist =>
      obtain ⟨rfl, rfl⟩ := Prod.mk.inj (Option.some.inj h)
      exact ⟨_, rfl, fun loggers' => by simp [putLoggers, set_set]⟩
    · obtain ⟨rfl, rfl⟩ := Prod.mk.inj (Option.some.inj h)
      exact ⟨_, rfl, fun loggers' => rfl⟩
    · cases h
  · cases h

end Config

/-! ## An entry, marked and back -/

/-- The entry at DEBUG with a marker in its `user-context`. -/
def marked (entry context : Fields) (untilIso : String) (restore : Json) : Fields :=
  set "user-context"
    (.obj (set investigationKey (.obj [("until", .str untilIso), ("restore", restore)]) context))
    (set "debuglevel" (.int investigationDebuglevel)
      (set "severity" (.str investigationSeverity) entry))

/-- What the marker is to say of an entry that was there. -/
def restoreOf (entry : Fields) : Json :=
  .obj [("severity", (lookup "severity" entry).getD absent),
    ("debuglevel", (lookup "debuglevel" entry).getD absent)]

/-- The `user-context` of an entry, which is a dictionary. -/
def contextOf (entry : Fields) : Fields :=
  match lookup "user-context" entry with
  | some (.obj context) => context
  | _ => []

/-- An entry without a marker, whose severity and debuglevel can be put back: where they are there
they are a severity and a debuglevel of Kea. -/
structure Acceptable (entry : Fields) : Prop where
  severity : ∀ v, lookup "severity" entry = some v → isSeverity v = true ∧ v ≠ absent
  debuglevel : ∀ v, lookup "debuglevel" entry = some v → isDebuglevel v = true
  context : lookup "user-context" entry = none ∨
    ∃ context, lookup "user-context" entry = some (.obj context)
  unmarked : lookup investigationKey (contextOf entry) = none

/-- The entry without an empty `user-context`. -/
def withoutEmptyContext (entry : Fields) : Fields :=
  if lookup "user-context" entry = some (.obj []) then pop "user-context" entry else entry

section Entry

variable {entry context : Fields} {untilIso untilIso' : String} {restore : Json}

theorem isEntry_iff {fs : Fields} :
    isEntry (.obj fs) = true ↔ lookup "name" fs = some (.str investigationLogger) := by
  simp [isEntry]

theorem isEntry_marked (h : isEntry (.obj entry) = true) :
    isEntry (.obj (marked entry context untilIso restore)) = true := by
  rw [isEntry_iff] at h ⊢
  rw [marked, lookup_set_ne (by decide), lookup_set_ne (by decide), lookup_set_ne (by decide), h]

/-- Marking a marked entry again moves the time. -/
theorem marked_marked :
    marked (marked entry context untilIso restore)
        (set investigationKey (.obj [("until", .str untilIso), ("restore", restore)]) context)
        untilIso' restore = marked entry context untilIso' restore := by
  have hseverity : lookup "severity" (marked entry context untilIso restore) =
      some (.str investigationSeverity) := by
    rw [marked, lookup_set_ne (by decide), lookup_set_ne (by decide), lookup_set_self]
  have hlevel : lookup "debuglevel" (marked entry context untilIso restore) =
      some (.int investigationDebuglevel) := by
    rw [marked, lookup_set_ne (by decide), lookup_set_self]
  conv_lhs => rw [marked, set_lookup hseverity, set_lookup hlevel, marked, set_set, set_set]
  rw [marked]

/-- Putting back one key does not touch another. -/
theorem putBack_set {j k : String} {v old : Json} (h : j ≠ k) (hk : (lookup k entry).isSome) :
    putBack k old (set j v entry) = set j v (putBack k old entry) := by
  unfold putBack
  split_ifs
  · exact pop_set_ne h
  · exact set_comm h.symm hk

/-- Putting back what a key was undoes the change of it. -/
theorem putBack_self {k : String} {v : Json} (h : lookup k entry ≠ some absent) :
    putBack k ((lookup k entry).getD absent) (set k v entry) = entry := by
  unfold putBack
  cases hk : lookup k entry with
  | none => rw [Option.getD_none, if_pos rfl, pop_set hk]
  | some w =>
    rw [hk] at h
    have hne : w ≠ absent := fun hw => h (congrArg some hw)
    rw [Option.getD_some, if_neg hne, set_set, set_lookup hk]

/-- Without its marker a marked entry is what it was. -/
theorem dropMarker_set {v : Json} (h : Acceptable entry) :
    dropMarker (set investigationKey v (contextOf entry))
      (set "user-context" (.obj (set investigationKey v (contextOf entry))) entry) =
        withoutEmptyContext entry := by
  rw [dropMarker, pop_set h.unmarked, withoutEmptyContext]
  rcases h.context with hnone | ⟨context, hcontext⟩
  · have hempty : contextOf entry = [] := by rw [contextOf, hnone]
    rw [hempty, if_pos (by rfl), pop_set hnone, if_neg (by simp [hnone])]
  · have heq : contextOf entry = context := by rw [contextOf, hcontext]
    rw [heq]
    cases context with
    | nil => rw [if_pos (by rfl), pop_set_self, if_pos hcontext]
    | cons f fs => rw [if_neg (by simp), set_set, set_lookup hcontext, if_neg (by simp [hcontext])]

/-- Putting back both keys and dropping the marker undoes the marking. -/
theorem putBack_marked (h : Acceptable entry) {v : Json} :
    dropMarker (set investigationKey v (contextOf entry))
      (putBack "debuglevel" ((lookup "debuglevel" entry).getD absent)
        (putBack "severity" ((lookup "severity" entry).getD absent)
          (set "user-context" (.obj (set investigationKey v (contextOf entry)))
            (set "debuglevel" (.int investigationDebuglevel)
              (set "severity" (.str investigationSeverity) entry))))) =
      withoutEmptyContext entry := by
  have hseverity : lookup "severity" entry ≠ some absent :=
    fun heq => (h.severity _ heq).2 rfl
  have hlevel : lookup "debuglevel" entry ≠ some absent := by
    intro heq
    have hint := h.debuglevel _ heq
    cases hint
  have hthere : (lookup "severity" (set "severity" (.str investigationSeverity) entry)).isSome := by
    rw [lookup_set_self, Option.isSome_some]
  -- the severity under the two keys that were written after it, then the debuglevel under one
  rw [putBack_set (by decide) (by rwa [lookup_set_ne (by decide)]),
    putBack_set (by decide) hthere, putBack_self hseverity,
    putBack_set (by decide) (by rw [lookup_set_self, Option.isSome_some]), putBack_self hlevel,
    dropMarker_set h]

/-- What the marker says of an entry can be put back. -/
theorem restoreProblem_restoreOf (h : Acceptable entry) : restoreProblem (restoreOf entry) = "" := by
  have hall : ∀ key ∈ restoreKeys, keyProblem [("severity", (lookup "severity" entry).getD absent),
      ("debuglevel", (lookup "debuglevel" entry).getD absent)] key = none := by
    intro key hkey
    simp only [restoreKeys, List.mem_cons, List.not_mem_nil, or_false] at hkey
    rcases hkey with rfl | rfl
    · cases hv : lookup "severity" entry with
      | none => simp [keyProblem]
      | some v => simp [keyProblem, (h.severity v hv).1]
    · cases hv : lookup "debuglevel" entry with
      | none => simp [keyProblem]
      | some v => simp [keyProblem, h.debuglevel v hv]
  rw [restoreOf, restoreProblem, lookup_cons, if_neg (by decide), lookup_cons,
    if_neg (by decide), lookup_nil]
  dsimp only
  rw [List.findSome?_eq_none_iff.mpr hall, Option.getD_none]

end Entry

/-! ## The edits -/

/-- A configuration that an investigation can start from: a `Dhcp4` section, a list of loggers or
none, and an entry of the logger that is acceptable, or none. -/
structure Startable (cfg sec : Fields) (loggers : List Json) : Prop where
  list : dhcp4Loggers cfg false = some (sec, loggers)
  entry : ∀ entry, loggerEntry loggers = some entry → Acceptable entry

/-- The entry before it is marked: the one that is there, or the new one. -/
def startEntry (loggers : List Json) : Fields :=
  (loggerEntry loggers).getD [("name", .str investigationLogger)]

/-- What the marker is to say. -/
def startRestore (loggers : List Json) : Json :=
  if (loggerEntry loggers).isNone then .obj [("created", .bool true)]
  else restoreOf (startEntry loggers)

/-- The configuration with its logger marked, and with nothing else of it changed. -/
def markedWith (cfg sec : Fields) (loggers : List Json) (untilIso : String) : Fields :=
  putLoggers cfg sec (placed loggers (marked (startEntry loggers)
    (contextOf (startEntry loggers)) untilIso (startRestore loggers)))

/-- The configuration that comes back: its list of loggers is there, and no empty `user-context` is
in its entry. -/
def restored (cfg sec : Fields) (loggers : List Json) : Fields :=
  putLoggers cfg sec (match loggerEntry loggers with
    | none => loggers
    | some entry => replaceEntry (withoutEmptyContext entry) loggers)

section Edits

variable {cfg sec : Fields} {loggers : List Json} {untilIso untilIso' : String}

theorem isEntry_startEntry : isEntry (.obj (startEntry loggers)) = true := by
  unfold startEntry
  cases h : loggerEntry loggers with
  | none => decide
  | some entry => exact loggerEntry_some h

theorem acceptable_startEntry (h : Startable cfg sec loggers) :
    Acceptable (startEntry loggers) := by
  unfold startEntry
  cases hentry : loggerEntry loggers with
  | none =>
    refine ⟨fun v hv => ?_, fun v hv => ?_, .inl (by decide), by decide⟩
    · simp [show lookup "severity" [("name", Json.str investigationLogger)] = none by decide] at hv
    · simp [show lookup "debuglevel" [("name", Json.str investigationLogger)] = none by decide]
        at hv
  | some entry => exact h.entry entry hentry

theorem markerOf_start (h : Startable cfg sec loggers) : markerOf cfg = none := by
  rw [markerOf, h.list]
  dsimp only [Option.bind_eq_bind, Option.bind_some]
  cases hentry : loggerEntry loggers with
  | none => rfl
  | some entry =>
    have hentry := h.entry entry hentry
    have hun := hentry.unmarked
    rw [Option.bind_some]
    rcases hentry.context with hnone | ⟨context, hcontext⟩
    · rw [hnone]
    · rw [contextOf, hcontext] at hun
      rw [hcontext]
      exact hun

theorem restoreProblem_startRestore (h : Startable cfg sec loggers) :
    restoreProblem (startRestore loggers) = "" := by
  unfold startRestore
  split_ifs
  · decide
  · exact restoreProblem_restoreOf (acceptable_startEntry h)

/-- The first call marks the logger. -/
theorem setInvestigationLogging_start (h : Startable cfg sec loggers) :
    setInvestigationLogging cfg untilIso = (markedWith cfg sec loggers untilIso, .ok) := by
  obtain ⟨sec', hcreate, hput⟩ := dhcp4Loggers_create h.list
  have hvalid : validateInvestigationMarker cfg = "" := by
    rw [validateInvestigationMarker, markerOf_start h]
  have hacceptable := acceptable_startEntry h
  have hcontext : (lookup "user-context" (startEntry loggers)).getD (.obj []) =
      .obj (contextOf (startEntry loggers)) := by
    rcases hacceptable.context with hnone | ⟨context, hsome⟩
    · rw [contextOf, hnone, Option.getD_none]
    · rw [contextOf, hsome, Option.getD_some]
  rw [setInvestigationLogging, if_neg (not_not.mpr hvalid), hcreate]
  dsimp only
  rw [← startEntry, hcontext]
  dsimp only
  rw [hacceptable.unmarked]
  dsimp only
  cases hentry : loggerEntry loggers with
  | none =>
    simp [hput, markedWith, marked, placed, startRestore, hentry]
  | some entry =>
    simp [hput, markedWith, marked, placed, startRestore, hentry, restoreOf]

/-- Where the marker is after the first call. -/
theorem carries_markedWith : Carries (markedWith cfg sec loggers untilIso)
    (set "loggers" (.arr (placed loggers (marked (startEntry loggers)
      (contextOf (startEntry loggers)) untilIso (startRestore loggers)))) sec)
    (placed loggers (marked (startEntry loggers) (contextOf (startEntry loggers)) untilIso
      (startRestore loggers)))
    (marked (startEntry loggers) (contextOf (startEntry loggers)) untilIso (startRestore loggers))
    (set investigationKey (.obj [("until", .str untilIso), ("restore", startRestore loggers)])
      (contextOf (startEntry loggers)))
    (.obj [("until", .str untilIso), ("restore", startRestore loggers)]) where
  dhcp4 := lookup_set_self
  list := lookup_set_self
  found := loggerEntry_placed (isEntry_marked isEntry_startEntry)
  inEntry := by rw [marked, lookup_set_self]
  inContext := lookup_set_self

theorem validate_markedWith (h : Startable cfg sec loggers) :
    validateInvestigationMarker (markedWith cfg sec loggers untilIso) = "" := by
  rw [validateInvestigationMarker, carries_markedWith.markerOf_eq]
  dsimp only
  rw [lookup_cons, if_neg (by decide), lookup_cons, if_pos rfl, Option.getD_some]
  exact restoreProblem_startRestore h

/-- A later call moves the time. -/
theorem setInvestigationLogging_again (h : Startable cfg sec loggers) :
    setInvestigationLogging (markedWith cfg sec loggers untilIso) untilIso' =
      (markedWith cfg sec loggers untilIso', .ok) := by
  have hcarries : Carries (markedWith cfg sec loggers untilIso) _ _ _ _ _ := carries_markedWith
  have hrestore : (lookup "restore" [("until", Json.str untilIso),
      ("restore", startRestore loggers)]).getD .null = startRestore loggers := by
    rw [lookup_cons, if_neg (by decide), lookup_cons, if_pos rfl, Option.getD_some]
  rw [setInvestigationLogging, if_neg (not_not.mpr (validate_markedWith h)),
    hcarries.dhcp4Loggers_eq]
  dsimp only
  rw [hcarries.found, Option.getD_some, hcarries.inEntry, Option.getD_some]
  dsimp only
  rw [hcarries.inContext]
  dsimp only
  rw [hrestore, if_neg (not_not.mpr (restoreProblem_startRestore h))]
  dsimp only
  rw [Option.isNone_some, if_neg (by decide), ← marked, marked_marked, markedWith,
    putLoggers_putLoggers, replaceEntry_placed (isEntry_marked isEntry_startEntry), ← markedWith]

/-- What is put back of a marked logger, by what its `restore` object says. -/
theorem clearInvestigationLogging_eq (h : Startable cfg sec loggers) {restore : Fields}
    (heq : startRestore loggers = .obj restore) :
    clearInvestigationLogging (markedWith cfg sec loggers untilIso) none =
      if ((lookup "created" restore).getD .null).falsy then
        (putLoggers cfg sec (placed loggers (dropMarker
          (set investigationKey (.obj [("until", .str untilIso), ("restore", .obj restore)])
            (contextOf (startEntry loggers)))
          (restoreKeys.foldl (fun entry key => putBack key ((lookup key restore).getD absent) entry)
            (marked (startEntry loggers) (contextOf (startEntry loggers)) untilIso
              (.obj restore))))), .ok)
      else (putLoggers cfg sec loggers, .ok) := by
  have hcarries : Carries (markedWith cfg sec loggers untilIso) _ _ _ _ _ := carries_markedWith
  have hrestore : lookup "restore" [("until", Json.str untilIso),
      ("restore", startRestore loggers)] = some (.obj restore) := by
    rw [lookup_cons, if_neg (by decide), lookup_cons, if_pos rfl, heq]
  rw [clearInvestigationLogging, if_neg (not_not.mpr (validate_markedWith h)),
    hcarries.dhcp4Loggers_eq]
  dsimp only
  rw [hcarries.found]
  dsimp only
  rw [hcarries.inEntry]
  dsimp only
  rw [hcarries.inContext]
  dsimp only
  rw [hrestore, Option.any_none, if_neg (by decide)]
  dsimp only
  rw [markedWith, putLoggers_putLoggers, putLoggers_putLoggers,
    replaceEntry_placed (isEntry_marked isEntry_startEntry), heq]
  split_ifs with hfalsy
  · rfl
  · -- only an entry that was made is to be removed
    have hnone : loggerEntry loggers = none := by
      unfold startRestore at heq
      split_ifs at heq with hentry
      · exact Option.isNone_iff_eq_none.mp hentry
      · rw [restoreOf, Json.obj.injEq] at heq
        rw [← heq] at hfalsy
        exact absurd rfl hfalsy
    rw [removeEntry_placed hnone (isEntry_marked isEntry_startEntry)]

/-- The logger is put back as it was. -/
theorem clearInvestigationLogging_markedWith (h : Startable cfg sec loggers) :
    clearInvestigationLogging (markedWith cfg sec loggers untilIso) none =
      (restored cfg sec loggers, .ok) := by
  cases hentry : loggerEntry loggers with
  | none =>
    have hmade : startRestore loggers = .obj [("created", .bool true)] := by
      rw [startRestore, hentry]
      rfl
    rw [clearInvestigationLogging_eq h hmade, if_neg (by decide), restored, hentry]
  | some entry =>
    have hstart : startEntry loggers = entry := by rw [startEntry, hentry, Option.getD_some]
    have hkept : startRestore loggers = restoreOf entry := by
      rw [startRestore, hentry, hstart]
      rfl
    have hplaced : placed loggers = fun e => replaceEntry e loggers := by
      funext e
      rw [placed, hentry]
      rfl
    have hfalsy : ((lookup "created" [("severity", (lookup "severity" entry).getD absent),
        ("debuglevel", (lookup "debuglevel" entry).getD absent)]).getD .null).falsy = true := rfl
    rw [clearInvestigationLogging_eq h hkept, if_pos hfalsy, hplaced, hstart, restored, hentry]
    dsimp only
    rw [← putBack_marked (h.entry entry hentry)]
    rfl

/-- Any number of calls, the last of which says until when. -/
theorem foldl_setInvestigationLogging (h : Startable cfg sec loggers) (untils : List String)
    (hne : untils ≠ []) :
    untils.foldl (fun c u => (setInvestigationLogging c u).1) cfg =
      markedWith cfg sec loggers (untils.getLast hne) := by
  induction untils using List.reverseRecOn with
  | nil => exact absurd rfl hne
  | append_singleton untils u ih =>
    rw [List.foldl_append, List.foldl_cons, List.foldl_nil, List.getLast_append_singleton]
    by_cases hempty : untils = []
    · rw [hempty, List.foldl_nil, setInvestigationLogging_start h]
    · rw [ih hempty, setInvestigationLogging_again h]

/-- Where the list is there and the `user-context` is not empty, all comes back. -/
theorem restored_eq (hsec : lookup "Dhcp4" cfg = some (.obj sec))
    (hlist : lookup "loggers" sec = some (.arr loggers))
    (hcontext : ∀ entry, loggerEntry loggers = some entry →
      lookup "user-context" entry ≠ some (.obj [])) : restored cfg sec loggers = cfg := by
  have hself : (match loggerEntry loggers with
      | none => loggers
      | some entry => replaceEntry (withoutEmptyContext entry) loggers) = loggers := by
    cases hentry : loggerEntry loggers with
    | none => rfl
    | some entry =>
      dsimp only
      rw [withoutEmptyContext, if_neg (hcontext entry hentry), replaceEntry_self hentry]
  rw [restored, hself, putLoggers_self hsec hlist]

end Edits

/-- Any number of calls in a row mark the logger and change nothing else, with a marker that can be
trusted, and what was there comes back: the same configuration, or, where the list of loggers was not
there or the `user-context` was empty, the one with the empty list and without the `user-context`. -/
theorem clear_set_investigationLogging (cfg sec : Fields) (loggers : List Json)
    (h : Startable cfg sec loggers) (untils : List String) (hne : untils ≠ []) :
    let after := untils.foldl (fun c u => (setInvestigationLogging c u).1) cfg
    (∃ marker, markerOf after = some (.obj marker)) ∧ validateInvestigationMarker after = "" ∧
      (∃ entry, after = putLoggers cfg sec (placed loggers entry)) ∧
      clearInvestigationLogging after none = (restored cfg sec loggers, .ok) ∧
      (lookup "loggers" sec = some (.arr loggers) →
        (∀ entry, loggerEntry loggers = some entry →
          lookup "user-context" entry ≠ some (.obj [])) → restored cfg sec loggers = cfg) := by
  intro after
  have hafter : after = markedWith cfg sec loggers (untils.getLast hne) :=
    foldl_setInvestigationLogging h untils hne
  rw [hafter]
  refine ⟨⟨_, carries_markedWith.markerOf_eq⟩, validate_markedWith h, ⟨_, rfl⟩,
    clearInvestigationLogging_markedWith h, fun hlist hcontext => ?_⟩
  exact restored_eq (lookup_dhcp4 h.list) hlist hcontext

/-- The list of loggers with an entry at WARN and no level. -/
def warnLoggers : List Json :=
  [.obj [("name", .str investigationLogger), ("severity", .str "WARN")]]

/-- A configuration with that list. -/
def warnConfig : Fields := [("Dhcp4", .obj [("loggers", .arr warnLoggers)])]

theorem startable_warnConfig :
    Startable warnConfig [("loggers", .arr warnLoggers)] warnLoggers := by
  refine ⟨by decide, fun entry hentry => ?_⟩
  obtain rfl := Option.some.inj (hentry.symm.trans (show loggerEntry warnLoggers = some
    [("name", .str investigationLogger), ("severity", .str "WARN")] by decide))
  refine ⟨fun v hv => ?_, fun v hv => ?_, .inl (by decide), by decide⟩
  · obtain rfl := Option.some.inj (hv.symm.trans (by decide : _ = some (Json.str "WARN")))
    decide
  · cases hv

theorem clear_set_investigationLogging_warn :
    let after := ["2099-01-01T00:00:00+00:00", "2099-01-02T00:00:00+00:00"].foldl
      (fun c u => (setInvestigationLogging c u).1) warnConfig
    (∃ marker, markerOf after = some (.obj marker)) ∧ validateInvestigationMarker after = "" ∧
      (∃ entry, after = putLoggers warnConfig [("loggers", .arr warnLoggers)]
        (placed warnLoggers entry)) ∧
      clearInvestigationLogging after none =
        (restored warnConfig [("loggers", .arr warnLoggers)] warnLoggers, .ok) ∧
      (lookup "loggers" [("loggers", .arr warnLoggers)] = some (.arr warnLoggers) →
        (∀ entry, loggerEntry warnLoggers = some entry →
          lookup "user-context" entry ≠ some (.obj [])) →
        restored warnConfig [("loggers", .arr warnLoggers)] warnLoggers = warnConfig) :=
  clear_set_investigationLogging warnConfig [("loggers", .arr warnLoggers)] warnLoggers
    startable_warnConfig ["2099-01-01T00:00:00+00:00", "2099-01-02T00:00:00+00:00"] (by simp)

/-- A list of loggers whose entry has an empty `user-context`. -/
def emptyContextLoggers : List Json :=
  [.obj [("name", .str investigationLogger), ("user-context", .obj [])]]

/-- A configuration with that list. -/
def emptyContextConfig : Fields := [("Dhcp4", .obj [("loggers", .arr emptyContextLoggers)])]

/-- An empty `user-context` does not come back. -/
theorem emptyContext_lost :
    Startable emptyContextConfig [("loggers", .arr emptyContextLoggers)] emptyContextLoggers ∧
      clearInvestigationLogging
          (setInvestigationLogging emptyContextConfig "2099-01-01T00:00:00+00:00").1 none =
        ([("Dhcp4", .obj [("loggers", .arr [.obj [("name", .str investigationLogger)]])])], .ok) := by
  refine ⟨⟨by decide, fun entry hentry => ?_⟩, by decide⟩
  obtain rfl := Option.some.inj (hentry.symm.trans (show loggerEntry emptyContextLoggers = some
    [("name", .str investigationLogger), ("user-context", .obj [])] by decide))
  refine ⟨fun v hv => ?_, fun v hv => ?_, .inr ⟨[], by decide⟩, by decide⟩
  · cases hv
  · cases hv

end JenKea.Investigation
