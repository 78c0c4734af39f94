import JenKea.Incidents.Note
import Mathlib.Data.List.Induction

/-!
# Every run of the recovery note

What a sequence of writes does to the incidents of a note that starts empty: the note can always be
read, and an incident leaves it only for a reason (`Lawful`). The one thing about the arguments that
this rests on is how a change set lists servers: by name and by id, side by side (`Paired`).
-/

namespace JenKea.Incidents

open Json ChangeSet Text

/-! ## The writes -/

/-- A write of the note. -/
inductive Op where
  | recordOutcome (result : ChangeSetResult) (service summary at_ : String)
  | recordAttention (a : Attention)
  | resolveAttention (serverId : Json) (service : String) (categories : Option (List String))
  | acknowledgeRecovery (serverId : Option Json) (service category : Option String)
  | dismissRollbackNotes

/-- The note after a write, which the database completes or not. -/
def Op.step (isIso : String → Bool) (note : Stored) : Op × Bool → Stored
  | (.recordOutcome result service summary at_, done) =>
    (Incidents.recordOutcome isIso done result service summary at_ note).1
  | (.recordAttention a, done) => (Incidents.recordAttention isIso done a note).1
  | (.resolveAttention serverId service categories, done) =>
    (Incidents.resolveAttention isIso done serverId service categories note).1
  | (.acknowledgeRecovery serverId service category, done) =>
    (Incidents.acknowledgeRecovery isIso done serverId service category note).1
  | (.dismissRollbackNotes, done) => (Incidents.dismissRollbackNotes isIso done note).1

/-- The note after a sequence of writes, from an empty one. -/
def run (isIso : String → Bool) (ops : List (Op × Bool)) : Stored :=
  ops.foldl (Op.step isIso) .blank

/-- The servers of a result are listed by name and by id, side by side. -/
structure Paired (result : ChangeSetResult) : Prop where
  hands : result.needsHands = [] ↔ result.needsHandsIds = []
  covered : result.coveredIds = [] → result.covered = []

/-- The arguments are ones that a caller passes: an outcome is that of a change set, at a time. -/
def Op.Passed (isIso : String → Bool) : Op → Prop
  | .recordOutcome result _ _ at_ => Paired result ∧ isIso (strip at_) = true
  | _ => True

/-! ## Why an incident leaves the note -/

/-- A failed rollback. -/
def isRollbackFailed (incident : Fields) : Bool :=
  reads "status" "rollback_failed" incident && !isAttention incident

/-- The ids of the servers of an incident. -/
def serverIds (incident : Fields) : List Json := listOf "needs_hands_ids" incident

/-- An outcome of the same kind, of the same service and the same servers, takes its place. -/
def Op.Refreshes (incident : Fields) : Op → Prop
  | .recordOutcome result service _ _ =>
    result.status = .rollbackFailed ∧ reads "service" service incident ∧
      ((serverIds incident).map idText).Perm ((result.needsHandsIds.map keyJson).map idText)
  | _ => False

/-- A clean run of the same service covers all of its servers. -/
def Op.Covers (incident : Fields) : Op → Prop
  | .recordOutcome result service _ _ =>
    result.status = .ok ∧ reads "service" service incident ∧
      ∀ id ∈ serverIds incident, ∃ k ∈ result.coveredIds, id.pyEq (keyJson (some k))
  | _ => False

/-- A resolve of the same server and service. -/
def Op.Resolves (incident : Fields) : Op → Prop
  | .resolveAttention serverId service categories =>
    reads "service" service incident ∧ sameServer incident serverId ∧
      ∀ cs ∈ categories, ∃ c ∈ cs, reads "category" c incident
  | _ => False

/-- An acknowledgment that matches, where it asks, the server, the service, and the category. -/
def Op.Acknowledges (incident : Fields) : Op → Prop
  | .acknowledgeRecovery serverId service category =>
    (∀ id ∈ serverId, sameServer incident id) ∧ (∀ s ∈ service, reads "service" s incident) ∧
      ∀ c ∈ category, reads "category" c incident
  | _ => False

/-- An unproved recovery of the same category, service, and server takes its place. -/
def Op.Renews (incident : Fields) : Op → Prop
  | .recordAttention a =>
    reads "category" a.category incident ∧ reads "service" a.service incident ∧
      sameServer incident a.serverId
  | _ => False

/-- A new outcome is one too many: the note keeps the newest incidents, as many as the hard ceiling
allows, and the incident is one of those that are older than all of them. -/
def Op.Overflows (before after : List Fields) (incident : Fields) : Op → Prop
  | .recordOutcome _ _ _ _ => after.length = incidentsHardCeiling ∧
      ∃ older new, incident ∈ older ∧ (older ++ after).Sublist (before ++ [new])
  | _ => False

/-- What a write may take from the incidents of a note. -/
structure Lawful (op : Op) (before after : List Fields) : Prop where
  rollbackFailed : ∀ i ∈ before, isRollbackFailed i → i ∉ after →
    op.Refreshes i ∨ op.Covers i ∨ op = .dismissRollbackNotes ∨ op.Overflows before after i
  attention : ∀ i ∈ before, isAttention i → i ∉ after →
    op.Resolves i ∨ op.Acknowledges i ∨ op.Renews i ∨ op.Overflows before after i
  /-- A note of a rotation is never acknowledged away. -/
  acknowledged : ∀ i ∈ before, isAttention i → reads "category" "rotation-pending" i →
    (∃ serverId service category, op = .acknowledgeRecovery serverId service category) → i ∈ after
  /-- A note of a rotation that names a CA is never written over by one that names another. -/
  overwritten : ∀ i ∈ before, isAttention i → reads "category" "rotation-pending" i →
    ∀ a f, op = .recordAttention a → lookup "ca_fingerprint" i = some (.str f) → f ≠ "" →
      a.caFingerprint ≠ f → i ∈ after

/-! ## What a write does to the incidents -/

/-- The incidents after a write that the database completes. -/
def Op.effect (isIso : String → Bool) (l : List Fields) : Op → List Fields
  | .recordOutcome result service summary at_ =>
    match result.status with
    | .rolledBack | .rollbackFailed =>
      capped ((l.filter fun i => !sameTrouble (outcomeIncident result service summary at_) i) ++
        [outcomeIncident result service summary at_])
    | .ok => l.filter fun i => !incidentCleared isIso result service i
    | _ => l
  | .recordAttention a =>
    if (attentionCategories.lookup a.category).isNone ∨ ¬ recognizedIncident isIso a.incident ∨
      l.any a.otherGeneration then l
    else (l.filter fun i => !a.same i) ++ [a.incident]
  | .resolveAttention serverId service categories => l.filter fun i => !(isAttention i &&
      reads "service" service i && sameServer i serverId &&
        categories.all fun cs => readsOneOf "category" cs i)
  | .acknowledgeRecovery serverId service category => l.filter fun i => !(isAttention i &&
      !reads "category" "rotation-pending" i && serverId.all (sameServer i) &&
        service.all (fun s => reads "service" s i) && category.all fun c => reads "category" c i)
  | .dismissRollbackNotes => l.filter isAttention

section Effect

variable {isIso : String → Bool} {done : Bool} {fn : List Fields → Option (List Fields)}
  {note : Stored} {l : List Fields}

theorem recognizedAll_map (h : ∀ i ∈ l, recognizedIncident isIso i = true) :
    recognizedAll isIso (l.map .obj) = some l := by
  induction l with
  | nil => rfl
  | cons i l ih =>
    rw [List.forall_mem_cons] at h
    rw [List.map_cons, recognizedAll, if_pos h.1, ih h.2]
    rfl

/-- What a transaction stores is read back. -/
theorem incidentsOf_stored {new : List Fields} (hnote : incidentsOf isIso note = some l)
    (hfn : fn l = some new) (h : ∀ i ∈ new, recognizedIncident isIso i = true) :
    incidentsOf isIso (withAttention isIso true fn note).1 = some new := by
  rw [withAttention, if_neg (by simp), hnote]
  dsimp only
  rw [hfn]
  cases new with
  | nil => rfl
  | cons i new =>
    dsimp only
    rw [incidentsOf, lookup_cons, if_pos rfl]
    exact recognizedAll_map h

/-- A transaction that leaves the note alone. -/
theorem withAttention_kept (hnote : incidentsOf isIso note = some l) (hfn : fn l = none) :
    (withAttention isIso true fn note).1 = note := by
  rw [withAttention, if_neg (by simp), hnote]
  dsimp only
  rw [hfn]

theorem withAttention_undone : (withAttention isIso false fn note).1 = note := by
  rw [withAttention, if_pos (by simp)]

/-- A transaction that takes some of the incidents out, where there are any to take. -/
theorem incidentsOf_filter (p : Fields → Bool) {c : Prop} [Decidable c]
    (hnote : incidentsOf isIso note = some l)
    (hfn : fn l = if c then some (l.filter p) else none)
    (hc : ¬ c → (l.filter p).length = l.length)
    (h : ∀ i ∈ l.filter p, recognizedIncident isIso i = true) :
    incidentsOf isIso (withAttention isIso true fn note).1 = some (l.filter p) := by
  by_cases hleft : c
  · rw [if_pos hleft] at hfn
    exact incidentsOf_stored hnote hfn h
  · -- as many are left as there were, so all of them are
    rw [if_neg hleft] at hfn
    rw [withAttention_kept hnote hfn, List.filter_sublist.eq_of_length (hc hleft)]
    exact hnote

/-- The transaction that takes out what matches. -/
theorem incidentsOf_clearMatching (matching : Fields → Bool) (hnote : incidentsOf isIso note = some l)
    (h : ∀ i ∈ l.filter (fun i => !matching i), recognizedIncident isIso i = true) :
    incidentsOf isIso (clearMatching isIso true matching note).1.1 =
      some (l.filter fun i => !matching i) := by
  rw [clearMatching]
  refine incidentsOf_filter (fun i => !matching i) hnote rfl (fun hc => ?_) h
  have := List.length_filter_le (fun i => !matching i) l
  omega

/-- The transaction of an outcome that is kept. -/
theorem incidentsOf_outcome (incident : Fields) (hnote : incidentsOf isIso note = some l)
    (h : ∀ i ∈ capped ((l.filter fun i => !sameTrouble incident i) ++ [incident]),
      recognizedIncident isIso i = true) :
    incidentsOf isIso (withAttention isIso true (fun incidents =>
        some (capped ((incidents.filter fun i => !sameTrouble incident i) ++ [incident]))) note).1 =
      some (capped ((l.filter fun i => !sameTrouble incident i) ++ [incident])) :=
  incidentsOf_stored hnote rfl h

/-- The incidents of a note after a write. -/
theorem incidentsOf_step (hnote : incidentsOf isIso note = some l) (op : Op)
    (h : ∀ i ∈ op.effect isIso l, recognizedIncident isIso i = true) :
    incidentsOf isIso (Op.step isIso note (op, true)) = some (op.effect isIso l) := by
  cases op with
  | recordOutcome result service summary at_ =>
    rw [Op.step, recordOutcome]
    rw [Op.effect] at h ⊢
    cases hstatus : result.status with
    | rolledBack | rollbackFailed =>
      rw [hstatus] at h
      exact incidentsOf_outcome (outcomeIncident result service summary at_) hnote h
    | ok =>
      rw [hstatus] at h
      exact incidentsOf_filter _ hnote rfl not_not.mp h
    | _ => exact hnote
  | recordAttention a =>
    rw [Op.step, recordAttention]
    rw [Op.effect] at h ⊢
    by_cases hcategory : (attentionCategories.lookup a.category).isNone
    · rw [if_pos hcategory, if_pos (Or.inl hcategory)]
      exact hnote
    rw [if_neg hcategory]
    by_cases hrecognized : recognizedIncident isIso a.incident
    · rw [if_neg (not_not.mpr hrecognized)]
      by_cases hother : (l.any a.otherGeneration) = true
      · rw [if_pos (Or.inr (Or.inr hother))]
        dsimp only
        rw [withAttention_kept hnote (if_pos hother)]
        exact hnote
      · rw [if_neg (not_or.mpr ⟨hcategory, not_or.mpr ⟨not_not.mpr hrecognized, hother⟩⟩)] at h ⊢
        exact incidentsOf_stored hnote (if_neg hother) h
    · rw [if_pos hrecognized, if_pos (Or.inr (Or.inl hrecognized))]
      exact hnote
  | resolveAttention serverId service categories =>
    rw [Op.step, resolveAttention]
    exact incidentsOf_clearMatching _ hnote h
  | acknowledgeRecovery serverId service category =>
    rw [Op.step, acknowledgeRecovery]
    exact incidentsOf_clearMatching _ hnote h
  | dismissRollbackNotes =>
    rw [Op.step, dismissRollbackNotes]
    exact incidentsOf_stored hnote rfl h

end Effect

/-! ## What the incidents are -/

/-- An incident that a write put there. -/
inductive Written (isIso : String → Bool) : Fields → Prop
  | outcome {result : ChangeSetResult} {service summary at_ : String} (hpaired : Paired result)
      (hat : isIso (strip at_) = true)
      (hstatus : result.status = .rolledBack ∨ result.status = .rollbackFailed) :
      Written isIso (outcomeIncident result service summary at_)
  | attention {a : Attention} (hrecognized : recognizedIncident isIso a.incident = true) :
      Written isIso a.incident

section Written

variable {isIso : String → Bool} {l : List Fields} {i : Fields}

/-- An outcome says its status, its service, and its servers, and is no unproved recovery. -/
theorem outcomeIncident_eq (result : ChangeSetResult) (service summary at_ : String) :
    let incident := outcomeIncident result service summary at_
    lookup "status" incident = some (.str (statusText result.status)) ∧
      lookup "service" incident = some (.str service) ∧ lookup "at" incident = some (.str at_) ∧
      listOf "needs_hands" incident = result.needsHands.map .str ∧
      listOf "needs_hands_ids" incident = result.needsHandsIds.map keyJson ∧
      isAttention incident = false :=
  ⟨rfl, rfl, rfl, rfl, rfl, rfl⟩

/-- What a write puts there is an incident. -/
theorem Written.recognized (h : Written isIso i) : recognizedIncident isIso i = true := by
  cases h with
  | @outcome result service summary at_ _ hat hstatus =>
    obtain ⟨hlookup, hservice, hwhen, -, -, hattention⟩ :=
      outcomeIncident_eq result service summary at_
    have hlists : outcomeOptionalLists.all
        (isListOrAbsent (outcomeIncident result service summary at_)) = true := rfl
    rw [recognizedIncident, if_neg (by simp [hattention]), readsOneOf, isText, hwhen, hservice,
      hlists, isTimestamp, hat]
    rcases hstatus with hstatus | hstatus <;>
      · rw [hstatus] at hlookup
        simp [outcomeStatuses, reads, hlookup, statusText]
  | attention hrecognized => exact hrecognized

/-- An unproved recovery has its category for its status, which is none of an outcome. -/
theorem Written.status_of_attention (h : Written isIso i) (hattention : isAttention i = true) :
    ∃ c ∈ attentionCategories.map Prod.fst, lookup "status" i = some (.str c) := by
  cases h with
  | @outcome result service summary at_ _ _ _ =>
    rw [(outcomeIncident_eq result service summary at_).2.2.2.2.2] at hattention
    cases hattention
  | @attention a hrecognized =>
    rw [recognizedIncident, if_pos hattention] at hrecognized
    simp only [Bool.and_eq_true] at hrecognized
    obtain ⟨c, hc, hreads⟩ := List.any_eq_true.mp hrecognized.1.1.1.1
    have hcategory : lookup "category" a.incident = some (.str a.category) := rfl
    rw [reads, hcategory, beq_iff_eq, Option.some.injEq, Json.str.injEq] at hreads
    exact ⟨c, hc, hreads ▸ rfl⟩

/-- A failed rollback lists its servers by id where it lists them by name. -/
theorem Written.serverIds_eq_nil (h : Written isIso i) (hfailed : isRollbackFailed i = true) :
    serverIds i = [] ↔ listOf "needs_hands" i = [] := by
  rw [isRollbackFailed, Bool.and_eq_true, Bool.not_eq_true'] at hfailed
  cases h with
  | @outcome result service summary at_ hpaired _ _ =>
    obtain ⟨-, -, -, hnames, hids, -⟩ := outcomeIncident_eq result service summary at_
    rw [serverIds, hids, hnames, List.map_eq_nil_iff, List.map_eq_nil_iff]
    exact hpaired.hands.symm
  | @attention a hrecognized =>
    have hattention : isAttention a.incident = true := rfl
    rw [hattention] at hfailed
    cases hfailed.2

/-! ## The caps -/

theorem dropSoft_sublist : ∀ (n : ℕ) (l : List Fields), (dropSoft n l).Sublist l
  | 0, l => List.Sublist.refl l
  | n + 1, l => by
    rw [dropSoft]
    split_ifs with h
    · exact (dropSoft_sublist n _).trans List.eraseP_sublist
    · exact List.Sublist.refl l

/-- The soft cap takes no failed rollback and no unproved recovery. -/
theorem mem_dropSoft (hi : mayDrop i = false) : ∀ (n : ℕ) {l : List Fields}, i ∈ l → i ∈ dropSoft n l
  | 0, _, hmem => hmem
  | n + 1, l, hmem => by
    rw [dropSoft]
    split_ifs with h
    · exact mem_dropSoft hi n ((List.mem_eraseP_of_neg (by simp [hi])).mpr hmem)
    · exact hmem

theorem capped_sublist (l : List Fields) : (capped l).Sublist l :=
  (List.drop_sublist _ _).trans (dropSoft_sublist _ _)

/-- What the caps take of the failed rollbacks and the unproved recoveries, the hard ceiling takes: the
oldest of more than it allows. -/
theorem not_mem_capped (hi : mayDrop i = false) (hmem : i ∈ l) (hnot : i ∉ capped l) :
    (capped l).length = incidentsHardCeiling ∧ ∃ older, i ∈ older ∧ (older ++ capped l).Sublist l := by
  have hsoft := mem_dropSoft hi (l.length - maxIncidents) hmem
  have hsub := dropSoft_sublist (l.length - maxIncidents) l
  rw [capped] at hnot ⊢
  generalize dropSoft (l.length - maxIncidents) l = kept at hsoft hsub hnot ⊢
  have holder : i ∈ kept.take (kept.length - incidentsHardCeiling) := by
    have hsplit := List.take_append_drop (kept.length - incidentsHardCeiling) kept
    rw [← hsplit, List.mem_append] at hsoft
    exact hsoft.resolve_right hnot
  have hlong : kept.length - incidentsHardCeiling ≠ 0 := by
    intro hzero
    rw [hzero, List.take_zero] at holder
    cases holder
  refine ⟨?_, _, holder, ?_⟩
  · rw [List.length_drop]
    omega
  · rw [List.take_append_drop]
    exact hsub

end Written

/-! ## What a write may take -/

section Lawful

variable {isIso : String → Bool} {l : List Fields} {i : Fields} {result : ChangeSetResult}
  {service summary at_ : String}

/-- An incident that a new outcome takes away is the same trouble, or is one too many. -/
theorem not_mem_outcome {incident : Fields} (hdrop : mayDrop i = false) (hmem : i ∈ l)
    (hnot : i ∉ capped ((l.filter fun i => !sameTrouble incident i) ++ [incident])) :
    sameTrouble incident i = true ∨ Op.Overflows l
      (capped ((l.filter fun i => !sameTrouble incident i) ++ [incident])) i
      (.recordOutcome result service summary at_) := by
  by_cases hsame : sameTrouble incident i = true
  · exact Or.inl hsame
  · have hkept : i ∈ (l.filter fun i => !sameTrouble incident i) ++ [incident] :=
      List.mem_append_left _ (List.mem_filter.mpr ⟨hmem, by simp [hsame]⟩)
    obtain ⟨hlength, older, holder, hsub⟩ := not_mem_capped hdrop hkept hnot
    exact Or.inr ⟨hlength, older, incident, holder,
      hsub.trans (List.filter_sublist.append (List.Sublist.refl _))⟩

/-- An outcome that is the same trouble as a failed rollback is a failed rollback of its service and
its servers. -/
theorem refreshes_of_sameTrouble (hi : Written isIso i) (hpaired : Paired result)
    (hfailed : isRollbackFailed i = true)
    (hsame : sameTrouble (outcomeIncident result service summary at_) i = true) :
    Op.Refreshes i (.recordOutcome result service summary at_) := by
  obtain ⟨hstatus, hservice, -, hnames, hids, hattention⟩ :=
    outcomeIncident_eq result service summary at_
  rw [sameTrouble, hstatus, hservice, Bool.and_eq_true, Bool.and_eq_true, beq_iff_eq, beq_iff_eq,
    beq_iff_eq] at hsame
  obtain ⟨⟨hstatusEq, hserviceEq⟩, hservers⟩ := hsame
  have hreads := hfailed
  rw [isRollbackFailed, Bool.and_eq_true, reads, beq_iff_eq, hstatusEq, Option.some.injEq,
    Json.str.injEq] at hreads
  refine ⟨?_, ?_, ?_⟩
  · have htext := hreads.1
    cases h : result.status <;> rw [h] at htext <;> first | rfl | exact absurd htext (by decide)
  · rw [reads, hserviceEq, beq_self_eq_true]
  · -- both are told apart by their ids, since one that has none has no names either
    have hnew : incidentServers (outcomeIncident result service summary at_) =
        ((result.needsHandsIds.map keyJson).map idText).insertionSort (· ≤ ·) := by
      rw [incidentServers, hids]
      split_ifs with hnone
      · rw [hnone, hnames, hpaired.hands.mpr (List.map_eq_nil_iff.mp hnone)]
        rfl
      · rfl
    have hold : incidentServers i = ((serverIds i).map idText).insertionSort (· ≤ ·) := by
      rw [incidentServers]
      split_ifs with hnone
      · rw [(hi.serverIds_eq_nil hfailed).mp hnone, serverIds, hnone]
      · rfl
    rw [hold, hnew] at hservers
    have hperm := List.perm_insertionSort (· ≤ ·) ((serverIds i).map idText)
    rw [hservers] at hperm
    exact hperm.symm.trans (List.perm_insertionSort _ _)

/-- A clean run that clears a failed rollback is of its service, and covers its servers. -/
theorem covers_of_cleared (hi : Written isIso i) (hpaired : Paired result)
    (hstatus : result.status = .ok) (hfailed : isRollbackFailed i = true)
    (hcleared : incidentCleared isIso result service i = true) :
    Op.Covers i (.recordOutcome result service summary at_) := by
  have hkind := hfailed
  rw [isRollbackFailed, Bool.and_eq_true, Bool.not_eq_true'] at hkind
  rw [incidentCleared, if_neg (by simp [hi.recognized]), if_neg (by simp [hkind.2]),
    if_neg (by simp [hkind.1])] at hcleared
  by_cases hservice : reads "service" service i = true
  · rw [if_neg (by simp [hservice])] at hcleared
    refine ⟨hstatus, hservice, fun id hid => ?_⟩
    dsimp only at hcleared
    split_ifs at hcleared with hids
    · have hany := List.all_eq_true.mp hcleared id hid
      obtain ⟨k, hk, heq⟩ := List.any_eq_true.mp hany
      obtain ⟨k, hcovered, rfl⟩ := List.mem_map.mp hk
      exact ⟨k, hcovered, heq⟩
    · -- compared by names: the incident has ids, so the run has none, and covers nothing
      exfalso
      have hsome : serverIds i ≠ [] := List.ne_nil_of_mem hid
      have hnone : result.coveredIds = [] := by
        by_contra hne
        exact hids ⟨hsome, by simpa using hne⟩
      obtain ⟨name, hname⟩ := List.exists_mem_of_ne_nil _
        (mt (hi.serverIds_eq_nil hfailed).mpr hsome)
      have hany := List.all_eq_true.mp hcleared name hname
      rw [hpaired.covered hnone] at hany
      cases hany
  · rw [if_pos hservice] at hcleared
    cases hcleared

/-- An outcome is never the same trouble as an unproved recovery, whose status is its category. -/
theorem not_sameTrouble_of_attention (hi : Written isIso i) (hattention : isAttention i = true)
    (hstatus : result.status = .rolledBack ∨ result.status = .rollbackFailed) :
    sameTrouble (outcomeIncident result service summary at_) i ≠ true := by
  intro hsame
  obtain ⟨c, hc, hlookup⟩ := hi.status_of_attention hattention
  have hnew := (outcomeIncident_eq result service summary at_).1
  rw [sameTrouble, hlookup, hnew, Bool.and_eq_true, Bool.and_eq_true, beq_iff_eq,
    Option.some.injEq, Json.str.injEq] at hsame
  rw [hsame.1.1] at hc
  rcases hstatus with hstatus | hstatus <;>
    · rw [hstatus] at hc
      exact absurd hc (by decide)

theorem mayDrop_eq_false (h : isRollbackFailed i = true ∨ isAttention i = true) :
    mayDrop i = false := by
  rw [mayDrop]
  rcases h with hfailed | hattention
  · rw [isRollbackFailed, Bool.and_eq_true] at hfailed
    simp [hfailed.1]
  · simp [hattention]

theorem isAttention_eq_false (h : isRollbackFailed i = true) : isAttention i = false := by
  rw [isRollbackFailed, Bool.and_eq_true, Bool.not_eq_true'] at h
  exact h.2

/-- An incident that a filter takes out is one that it is told to. -/
theorem of_not_mem_filter {p : Fields → Bool} (hmem : i ∈ l)
    (hnot : i ∉ l.filter fun i => !p i) : p i = true := by
  by_contra hp
  exact hnot (List.mem_filter.mpr ⟨hmem, by simpa using hp⟩)

/-- A failed rollback leaves the note when it is refreshed, covered, dismissed, or one too many. -/
theorem rollbackFailed_of_not_mem {op : Op} (hop : op.Passed isIso) (hi : Written isIso i)
    (hmem : i ∈ l) (hfailed : isRollbackFailed i = true) (hnot : i ∉ op.effect isIso l) :
    op.Refreshes i ∨ op.Covers i ∨ op = .dismissRollbackNotes ∨
      op.Overflows l (op.effect isIso l) i := by
  have hnone := isAttention_eq_false hfailed
  cases op with
  | recordOutcome result service summary at_ =>
    rw [Op.effect] at hnot ⊢
    cases hstatus : result.status with
    | rolledBack | rollbackFailed =>
      rw [hstatus] at hnot
      rcases not_mem_outcome (mayDrop_eq_false (Or.inl hfailed)) hmem hnot with hsame | hover
      · exact Or.inl (refreshes_of_sameTrouble hi hop.1 hfailed hsame)
      · exact Or.inr (Or.inr (Or.inr hover))
    | ok =>
      rw [hstatus] at hnot
      have hcleared := of_not_mem_filter hmem hnot
      exact Or.inr (Or.inl (covers_of_cleared hi hop.1 hstatus hfailed hcleared))
    | _ =>
      rw [hstatus] at hnot
      exact absurd hmem hnot
  | recordAttention a =>
    rw [Op.effect] at hnot
    split_ifs at hnot with hguard
    · exact absurd hmem hnot
    · rw [List.mem_append, not_or] at hnot
      have hsame := of_not_mem_filter hmem hnot.1
      rw [Attention.same, hnone] at hsame
      cases hsame
  | resolveAttention serverId service categories =>
    have hmatches := of_not_mem_filter hmem hnot
    rw [hnone] at hmatches
    cases hmatches
  | acknowledgeRecovery serverId service category =>
    have hmatches := of_not_mem_filter hmem hnot
    rw [hnone] at hmatches
    cases hmatches
  | dismissRollbackNotes => exact Or.inr (Or.inr (Or.inl rfl))

/-- An unproved recovery leaves the note when it is resolved, acknowledged, renewed, or one too
many. -/
theorem attention_of_not_mem {op : Op} (hi : Written isIso i) (hmem : i ∈ l)
    (hattention : isAttention i = true) (hnot : i ∉ op.effect isIso l) :
    op.Resolves i ∨ op.Acknowledges i ∨ op.Renews i ∨ op.Overflows l (op.effect isIso l) i := by
  cases op with
  | recordOutcome result service summary at_ =>
    rw [Op.effect] at hnot ⊢
    cases hstatus : result.status with
    | rolledBack =>
      rw [hstatus] at hnot
      exact Or.inr (Or.inr (Or.inr
        ((not_mem_outcome (mayDrop_eq_false (Or.inr hattention)) hmem hnot).resolve_left
          (not_sameTrouble_of_attention hi hattention (Or.inl hstatus)))))
    | rollbackFailed =>
      rw [hstatus] at hnot
      exact Or.inr (Or.inr (Or.inr
        ((not_mem_outcome (mayDrop_eq_false (Or.inr hattention)) hmem hnot).resolve_left
          (not_sameTrouble_of_attention hi hattention (Or.inr hstatus)))))
    | ok =>
      rw [hstatus] at hnot
      have hcleared := of_not_mem_filter hmem hnot
      rw [incidentCleared, if_neg (by simp [hi.recognized]), if_pos hattention] at hcleared
      cases hcleared
    | _ =>
      rw [hstatus] at hnot
      exact absurd hmem hnot
  | recordAttention a =>
    rw [Op.effect] at hnot
    split_ifs at hnot with hguard
    · exact absurd hmem hnot
    · rw [List.mem_append, not_or] at hnot
      have hsame := of_not_mem_filter hmem hnot.1
      simp only [Attention.same, Bool.and_eq_true] at hsame
      exact Or.inr (Or.inr (Or.inl ⟨hsame.1.1.2, hsame.1.2, hsame.2⟩))
  | resolveAttention serverId service categories =>
    have hmatches := of_not_mem_filter hmem hnot
    simp only [Bool.and_eq_true, Option.all_eq_true] at hmatches
    obtain ⟨⟨⟨-, hservice⟩, hserver⟩, hcategories⟩ := hmatches
    exact Or.inl ⟨hservice, hserver, fun cs hcs => List.any_eq_true.mp (hcategories cs hcs)⟩
  | acknowledgeRecovery serverId service category =>
    have hmatches := of_not_mem_filter hmem hnot
    simp only [Bool.and_eq_true, Option.all_eq_true] at hmatches
    obtain ⟨⟨⟨-, hserver⟩, hservice⟩, hcategory⟩ := hmatches
    exact Or.inr (Or.inl ⟨hserver, hservice, hcategory⟩)
  | dismissRollbackNotes => exact absurd (List.mem_filter.mpr ⟨hmem, hattention⟩) hnot

/-- The note of a rotation is not acknowledged away. -/
theorem rotationPending_kept (hmem : i ∈ l) (hcategory : reads "category" "rotation-pending" i = true)
    (serverId : Option Json) (service category : Option String) :
    i ∈ (Op.acknowledgeRecovery serverId service category).effect isIso l := by
  by_contra hnot
  have hmatches := of_not_mem_filter hmem hnot
  rw [hcategory] at hmatches
  simp at hmatches

/-- The note of a rotation stays where another one is recorded under another CA. -/
theorem rotationPending_not_overwritten {a : Attention} {f : String} (hmem : i ∈ l)
    (hcategory : reads "category" "rotation-pending" i = true)
    (hf : lookup "ca_fingerprint" i = some (.str f)) (hne : f ≠ "") (hother : a.caFingerprint ≠ f) :
    i ∈ (Op.recordAttention a).effect isIso l := by
  by_contra hnot
  rw [Op.effect] at hnot
  split_ifs at hnot with hguard
  · exact hnot hmem
  · rw [List.mem_append, not_or] at hnot
    have hsame := of_not_mem_filter hmem hnot.1
    have hrotation : a.category = "rotation-pending" := by
      have h := hsame
      simp only [Attention.same, reads, Bool.and_eq_true, beq_iff_eq] at h hcategory
      simpa [hcategory] using h.1.1.2.symm
    have hfingerprint : caFingerprint i = .str f := by
      rw [caFingerprint, hf]
      simp [falsy, hne]
    refine hguard (Or.inr (Or.inr (List.any_eq_true.mpr ⟨i, hmem, ?_⟩)))
    simp [Attention.otherGeneration, hsame, hrotation, hfingerprint, hne, hother.symm]

/-- A write takes an incident from the note only for a reason. -/
theorem Op.lawful {op : Op} (hop : op.Passed isIso) (hl : ∀ i ∈ l, Written isIso i) :
    Lawful op l (op.effect isIso l) where
  rollbackFailed i hi hfailed hnot := rollbackFailed_of_not_mem hop (hl i hi) hi hfailed hnot
  attention i hi hattention hnot := attention_of_not_mem (hl i hi) hi hattention hnot
  acknowledged i hi _ hcategory hop := by
    obtain ⟨serverId, service, category, rfl⟩ := hop
    exact rotationPending_kept hi hcategory serverId service category
  overwritten i hi _ hcategory a f ha hf hne hother := by
    subst ha
    exact rotationPending_not_overwritten hi hcategory hf hne hother

/-- What a write leaves, a write put there. -/
theorem Op.effect_written {op : Op} (hop : op.Passed isIso) (hl : ∀ i ∈ l, Written isIso i) :
    ∀ i ∈ op.effect isIso l, Written isIso i := by
  intro i hi
  cases op with
  | recordOutcome result service summary at_ =>
    rw [Op.effect] at hi
    have hnew : (result.status = .rolledBack ∨ result.status = .rollbackFailed) →
        i ∈ (l.filter fun i => !sameTrouble (outcomeIncident result service summary at_) i) ++
          [outcomeIncident result service summary at_] → Written isIso i := by
      intro hstatus hmem
      rw [List.mem_append, List.mem_singleton] at hmem
      rcases hmem with hold | rfl
      · exact hl i (List.mem_of_mem_filter hold)
      · exact .outcome hop.1 hop.2 hstatus
    cases hstatus : result.status with
    | rolledBack =>
      rw [hstatus] at hi
      exact hnew (Or.inl hstatus) ((capped_sublist _).subset hi)
    | rollbackFailed =>
      rw [hstatus] at hi
      exact hnew (Or.inr hstatus) ((capped_sublist _).subset hi)
    | ok =>
      rw [hstatus] at hi
      exact hl i (List.mem_of_mem_filter hi)
    | _ =>
      rw [hstatus] at hi
      exact hl i hi
  | recordAttention a =>
    rw [Op.effect] at hi
    split_ifs at hi with hguard
    · exact hl i hi
    · rw [List.mem_append, List.mem_singleton] at hi
      rcases hi with hold | rfl
      · exact hl i (List.mem_of_mem_filter hold)
      · exact .attention (not_not.mp (not_or.mp (not_or.mp hguard).2).1)
  | resolveAttention serverId service categories => exact hl i (List.mem_of_mem_filter hi)
  | acknowledgeRecovery serverId service category => exact hl i (List.mem_of_mem_filter hi)
  | dismissRollbackNotes => exact hl i (List.mem_of_mem_filter hi)

end Lawful

/-! ## Runs -/

section Runs

variable {isIso : String → Bool} {note : Stored} {l : List Fields}

/-- A write that the database does not complete leaves the note. -/
theorem step_undone (op : Op) : Op.step isIso note (op, false) = note := by
  cases op with
  | recordOutcome result service summary at_ =>
    rw [Op.step, recordOutcome]
    cases result.status with
    | rolledBack | rollbackFailed | ok => exact withAttention_undone
    | _ => rfl
  | recordAttention a =>
    rw [Op.step, recordAttention]
    split_ifs <;> rfl
  | resolveAttention serverId service categories => rfl
  | acknowledgeRecovery serverId service category => rfl
  | dismissRollbackNotes => rfl

/-- The note can be read, and a write put there what it holds. -/
def Sound (isIso : String → Bool) (note : Stored) (l : List Fields) : Prop :=
  incidentsOf isIso note = some l ∧ ∀ i ∈ l, Written isIso i

/-- A write keeps the note sound, and takes an incident only for a reason. -/
theorem step_sound (hnote : Sound isIso note l) {op : Op} (done : Bool) (hop : op.Passed isIso) :
    ∃ l', Sound isIso (Op.step isIso note (op, done)) l' ∧ Lawful op l l' := by
  cases done with
  | false =>
    rw [step_undone]
    exact ⟨l, hnote, fun i hi _ hnot => absurd hi hnot, fun i hi _ hnot => absurd hi hnot,
      fun i hi _ _ _ => hi, fun i hi _ _ _ _ _ _ _ _ => hi⟩
  | true =>
    have hwritten := Op.effect_written hop hnote.2
    exact ⟨op.effect isIso l,
      ⟨incidentsOf_step hnote.1 op fun i hi => (hwritten i hi).recognized, hwritten⟩,
      Op.lawful hop hnote.2⟩

theorem run_append (ops : List (Op × Bool)) (o : Op × Bool) :
    run isIso (ops ++ [o]) = Op.step isIso (run isIso ops) o := by
  rw [run, List.foldl_append]
  rfl

/-- Every run leaves a note that is sound. -/
theorem run_sound (ops : List (Op × Bool)) (hops : ∀ o ∈ ops, o.1.Passed isIso) :
    ∃ l, Sound isIso (run isIso ops) l := by
  induction ops using List.reverseRec with
  | nil => exact ⟨[], rfl, fun i hi => absurd hi List.not_mem_nil⟩
  | append_singleton ops o ih =>
    rw [List.forall_mem_append, List.forall_mem_singleton] at hops
    obtain ⟨l, hsound⟩ := ih hops.1
    obtain ⟨l', hsound', -⟩ := step_sound hsound o.2 hops.2
    exact ⟨l', run_append ops o ▸ hsound'⟩

end Runs

/-- In every run of the writes, from an empty note, the stored note is one that the strict reader reads,
and every write takes incidents from it only for the reasons that there are. -/
theorem run_lawful (isIso : String → Bool) (ops : List (Op × Bool))
    (hops : ∀ o ∈ ops, o.1.Passed isIso) :
    (∃ l, incidentsOf isIso (run isIso ops) = some l ∧
      ∀ i ∈ l, recognizedIncident isIso i = true) ∧
    ∀ before op done after, ops = before ++ (op, done) :: after →
      ∃ l l', incidentsOf isIso (run isIso before) = some l ∧
        incidentsOf isIso (run isIso (before ++ [(op, done)])) = some l' ∧ Lawful op l l' := by
  constructor
  · obtain ⟨l, hread, hwritten⟩ := run_sound ops hops
    exact ⟨l, hread, fun i hi => (hwritten i hi).recognized⟩
  · rintro before op done after rfl
    rw [List.forall_mem_append, List.forall_mem_cons] at hops
    obtain ⟨l, hsound⟩ := run_sound before hops.1
    obtain ⟨l', hsound', hlawful⟩ := step_sound hsound done hops.2.1
    exact ⟨l, l', hsound.1, run_append before (op, done) ▸ hsound'.1, hlawful⟩

/-- A failed rollback on one server, the notes of two rotations there, an acknowledgment of everything,
and a clean run on the server, which the database does not complete. -/
def kitchenNotes : List (Op × Bool) :=
  [(.recordOutcome
      { status := .rollbackFailed, lastCode := "restart-failed", needsHands := ["kea-a"],
        needsHandsIds := [some (.id 1)] } "dhcp4" "pool added" "2026-03-01T08:00:00+00:00", true),
    (.recordAttention
      { serverId := .int 1, service := "dhcp4", operation := "rotation", category := "rotation-pending",
        at_ := "2026-03-01T09:00:00+00:00", caFingerprint := "aa" }, true),
    (.recordAttention
      { serverId := .str "1", service := "dhcp4", operation := "rotation",
        category := "rotation-pending", at_ := "2026-03-02T09:00:00+00:00", caFingerprint := "bb" },
      true),
    (.acknowledgeRecovery none none none, true),
    (.recordOutcome
      { status := .ok, lastCode := "ok", covered := ["kea-a"], coveredIds := [.id 1] } "dhcp4"
      "pool added" "2026-03-03T08:00:00+00:00", false)]

theorem run_lawful_kitchenNotes :
    (∃ l, incidentsOf (·.startsWith "2026") (run (·.startsWith "2026") kitchenNotes) = some l ∧
      ∀ i ∈ l, recognizedIncident (·.startsWith "2026") i = true) ∧
    ∃ l l', incidentsOf (·.startsWith "2026")
        (run (·.startsWith "2026") (kitchenNotes.take 3)) = some l ∧
      incidentsOf (·.startsWith "2026") (run (·.startsWith "2026")
        (kitchenNotes.take 3 ++ [(.acknowledgeRecovery none none none, true)])) = some l' ∧
      Lawful (.acknowledgeRecovery none none none) l l' := by
  have hops : ∀ o ∈ kitchenNotes, o.1.Passed (·.startsWith "2026") := by
    simp only [kitchenNotes, List.forall_mem_cons]
    exact ⟨⟨⟨by decide, by decide⟩, by decide +kernel⟩, trivial, trivial, trivial,
      ⟨⟨by decide, by decide⟩, by decide +kernel⟩, fun o ho => absurd ho List.not_mem_nil⟩
  have h := run_lawful (·.startsWith "2026") kitchenNotes hops
  exact ⟨h.1, h.2 (kitchenNotes.take 3) _ true (kitchenNotes.drop 4) rfl⟩

/-! ## The callers -/

section Callers

variable {γ : Type} (c : Change γ)

/-- Where it ends the change set, the program lists its servers side by side. -/
abbrev EndsPaired {α : Type} (p : ChangeM γ (α ⊕ ChangeSetResult)) : Prop :=
  p.Within (fun _ => True) (Sum.elim (fun _ => True) Paired)

theorem aborted_paired (code : String) (lines : List Line) : Paired (aborted code lines) :=
  ⟨by simp [aborted], fun _ => rfl⟩

theorem abortedForHands_paired (code : String) (lines : List Line) (name : String)
    (server : Server) : Paired (abortedForHands code lines name server) :=
  ⟨by simp [abortedForHands], fun _ => rfl⟩

theorem excepted_paired {α : Type} (name : String) (lines : List Line) (e : Exc) :
    EndsPaired (excepted name lines e : ChangeM γ (α ⊕ ChangeSetResult)) := aborted_paired _ _

theorem readApi_paired (server : Server) (name : String) (lines : List Line) :
    EndsPaired (readApi c server name lines) := by
  refine Prog.Within.bind (Prog.within_true _) fun _ _ => ?_
  refine Prog.Within.bind (Prog.within_true _) fun gated _ => ?_
  split_ifs
  · refine Prog.Within.bind (Prog.within_true _) fun refused _ => ?_
    split_ifs
    · exact abortedForHands_paired _ _ _ _
    · exact aborted_paired _ _
  · refine Prog.Within.bind (Prog.within_true _) fun window _ => ?_
    split_ifs
    · exact aborted_paired _ _
    · exact Prog.Within.bind (Prog.within_true _) fun _ _ => trivial

theorem proveApi_paired (server : Server) (name : String) (r : ReadAnswer γ) (lines : List Line) :
    EndsPaired (proveApi c server name r lines) := by
  rw [proveApi]
  cases r.cfg with
  | none => exact aborted_paired _ _
  | some cfg =>
    refine Prog.Within.bind (Prog.within_true _) fun unreadable _ => ?_
    split_ifs
    · exact aborted_paired _ _
    · refine Prog.Within.bind (Prog.within_true _) fun unresolved _ => ?_
      split_ifs
      · exact abortedForHands_paired _ _ _ _
      · refine Prog.Within.bind (Prog.within_true _) fun proved _ => ?_
        dsimp only
        split_ifs
        · exact aborted_paired _ _
        · trivial

theorem readFile_paired (server : Server) (name : String) (lines : List Line) :
    EndsPaired (readFile c server name lines) := by
  refine Prog.Within.bind (Prog.within_true _) fun r _ => ?_
  cases r.cfg with
  | some cfg => trivial
  | none =>
    cases c.absentIsExpected with
    | false => exact aborted_paired _ _
    | true =>
      cases r.errors with
      | nil => trivial
      | cons why errors => exact aborted_paired _ _

theorem readServer_paired (server : Server) (kind : Transport) (name : String)
    (lines : List Line) : EndsPaired (readServer c server kind name lines) := by
  rw [readServer]
  split_ifs
  · refine Prog.Within.bind ((readApi_paired c server name lines).handle
      (excepted_paired name lines)) fun r hr => ?_
    cases r with
    | inr r => exact hr
    | inl r => exact (proveApi_paired c server name r _).handle (excepted_paired name _)
  · exact (readFile_paired c server name lines).handle (excepted_paired name lines)

theorem judge_paired (server : Server) (kind : Transport) (name : String) (seen : Seen γ)
    (acc : Planned γ) {r : Planned γ ⊕ ChangeSetResult}
    (h : judge c server kind name seen acc = .ok r) : Sum.elim (fun _ => True) Paired r := by
  rw [judge] at h
  cases hmutate : c.mutate server seen.cfg with
  | error e =>
    rw [hmutate] at h
    cases h
  | ok mutated =>
    rw [hmutate] at h
    change (if _ then _ else _) = _ at h
    split_ifs at h with hcode hskip
    · cases htarget : newTarget c server kind name seen mutated.1 acc.targets.length with
      | error e =>
        rw [htarget] at h
        cases h
      | ok target =>
        rw [htarget] at h
        cases h
        trivial
    · cases h
      trivial
    · cases h
      exact aborted_paired _ _

theorem planServer_paired (planned : Server × Transport) (acc : Planned γ) :
    EndsPaired (planServer c planned acc) := by
  obtain ⟨server, kind⟩ := planned
  refine Prog.Within.bind (readServer_paired c server kind server.label acc.lines) fun r hr => ?_
  cases r with
  | inr r => exact hr
  | inl seen =>
    exact ((Prog.within_ofExcept _).mpr fun r => judge_paired c server kind _ seen acc).handle
      (excepted_paired _ _)

theorem commitFailedResult_paired (committed : List (Target γ)) (t : Target γ) (res : HostResult)
    (acc : Undone γ) : Paired (commitFailedResult committed t res acc) := by
  rw [commitFailedResult]
  dsimp only
  generalize hunproved : (if res.needsHands = true then [t] else []) = unproved
  split_ifs
  · exact ⟨by simp, fun _ => rfl⟩
  · exact aborted_paired _ _
  · exact aborted_paired _ _

theorem putBackResult_paired (code : String) (back : PutBack γ) (failures stuckFailures : List String)
    (line : String) : Paired (putBackResult code back failures stuckFailures line) := by
  rw [putBackResult]
  split_ifs
  · exact ⟨by simp, fun _ => rfl⟩
  · exact ⟨by simp, fun _ => rfl⟩

theorem applied_paired (targets : List (Target γ)) (lines : List Line) :
    Paired (applied targets lines) :=
  ⟨by simp [applied], fun h => by simpa [applied] using h⟩

/-- A phase that ends the change set lists its servers side by side. -/
abbrev PhasePaired (p : ChangeM γ (Option ChangeSetResult)) : Prop :=
  p.Within (fun _ => True) fun r => ∀ result, r = some result → Paired result

theorem restartPhase_paired (targets : List (Target γ)) (lines : List Line) :
    PhasePaired (restartPhase c targets lines) := by
  rw [restartPhase]
  dsimp only
  split_ifs
  · refine Prog.Within.bind (Prog.within_true _) fun restarts _ => ?_
    split_ifs
    · exact fun result h => nomatch h
    · refine Prog.Within.bind (Prog.within_true _) fun back _ => ?_
      rintro result ⟨⟩
      exact putBackResult_paired _ _ _ _ _
  · exact fun result h => nomatch h

theorem finalizePhase_paired (targets : List (Target γ)) (lines : List Line) :
    PhasePaired (finalizePhase c targets lines) := by
  rw [finalizePhase]
  split_ifs
  · refine Prog.Within.handle (Prog.Within.bind (Prog.within_true _) fun _ _ => ?_) fun e => ?_
    · exact fun result h => nomatch h
    · refine Prog.Within.bind (Prog.within_true _) fun back _ => ?_
      rintro result ⟨⟩
      exact putBackResult_paired _ _ _ _ _
  · exact fun result h => nomatch h

theorem afterPlan_paired (plan : Planned γ) :
    (afterPlan c plan).Within (fun _ => True) Paired := by
  refine Prog.Within.bind (Prog.within_true _) fun tested _ => ?_
  dsimp only
  split_ifs
  · exact aborted_paired _ _
  · refine Prog.Within.bind (Prog.within_true _) fun r _ => ?_
    cases r with
    | inr r => exact Prog.Within.bind (Prog.within_true _) fun acc _ =>
        commitFailedResult_paired _ _ _ acc
    | inl committed =>
      refine Prog.Within.bind (restartPhase_paired c _ _) fun r hr => ?_
      cases r with
      | some r => exact hr r rfl
      | none =>
        refine Prog.Within.bind (finalizePhase_paired c _ _) fun r hr => ?_
        cases r with
        | some r => exact hr r rfl
        | none => exact Prog.Within.bind (Prog.within_true _) fun lines _ => applied_paired _ lines

/-- Every change set lists its servers side by side. -/
theorem runChangeUnlocked_paired : (runChangeUnlocked c).Within (fun _ => True) Paired := by
  rw [runChangeUnlocked]
  dsimp only
  split_ifs
  · exact ⟨by simp, fun _ => rfl⟩
  · refine Prog.Within.bind (Prog.Within.loop (planServer_paired c) _ _) fun r hr => ?_
    cases r with
    | inr r => exact hr
    | inl plan =>
      dsimp only
      split_ifs
      · exact ⟨by simp, fun _ => rfl⟩
      · exact afterPlan_paired c plan

end Callers

end JenKea.Incidents
