import JenKea.Investigation.Kept

/-!
# Runs of investigation logging

Whatever sequence of `turn_on`, `turn_off` and `sweep` runs on the index, an entry that leaves was
settled, under one condition on what a sweep finds: it can read the index, and where it puts a logger
back by its own time, the file carries no marker whose deadline is still ahead. A file like that is left as
it is, and `_restore_core` takes that answer for a file without a marker.
-/

namespace JenKea.Investigation

open Json ChangeSet Text

section Acts

variable {clock : Clock} {now : Option ℤ} {own : Bool} {record : Record} {sid : String}
  {e : Entry} {s : KeaServer} {w : World}

/-! ## Turning logging on -/

/-- The entry of the server, where there is one, holds no contradiction. -/
def Plain (record : Record) (sid : String) : Prop :=
  ∀ m, record.servers.lookup sid = some m → m.contradiction = false

/-- Where the entry of the server holds no contradiction, any entry may take its place. -/
theorem Plain.fits (h : Plain record sid) : Fits false record sid e :=
  fun m hm => ⟨fun hc => by simp [h m hm] at hc, fun hown => nomatch hown⟩

/-- `put` of an entry that holds no contradiction. -/
theorem put_plain (h : Kept false record w) (hplain : Plain record sid)
    (he : e.contradiction = false) :
    Ensures clock now (put record sid e) (fun r t => Kept false r.1 t ∧ Plain r.1 sid) w := by
  refine (put_ensures h hplain.fits).mono ?_
  rintro ⟨record', stored⟩ t ⟨hkept, -, -, hown⟩
  refine ⟨hkept, fun m hm => ?_⟩
  rcases hown m hm with rfl | hm
  · exact he
  · exact hplain m hm

theorem revertFile_ensures : Ensures clock none (revertFile clock s) (fun restored t =>
    t.setting = w.setting ∧ t.left = w.left ∧ (restored = true → t.file s.sid = true)) w := by
  refine Prog.Ends.bind (Q := fun answer t => t.setting = w.setting ∧ t.left = w.left ∧
    (((answer : ChangeAnswer).result clock (.clear none)).1 = .ok ∨
      (answer.result clock (.clear none)).1 = .nothing → t.file s.sid = true))
    (ask_ensures fun c hdue => ⟨rfl, rfl, fun h => ?_⟩) ?_
  · dsimp only [World.after]
    rw [Function.update_self]
    exact unmarked_clear hdue h
  · rintro answer t ⟨hsetting, hleft, hfile⟩
    refine (ask_same (.recordDaemon s) fun _ => rfl).bind ?_
    rintro _ u rfl
    refine (Prog.ends_pure _).mpr ⟨hsetting, hleft, fun h => hfile ?_⟩
    simpa using h

/-- A turn-on that the daemon did not take drops the entry only on a file that is restored and a daemon
that was seen restored. -/
theorem didNotTake_keeps {contradiction armed : Bool} {held : Option Entry}
    (h : Kept false record w) (hplain : Plain record s.sid) (he : e.contradiction = false) :
    Keeps clock none false (didNotTake clock s record e contradiction held armed) w := by
  refine revertFile_ensures.bind ?_
  rintro restored t ⟨hsetting, hleft, hfile⟩
  have hkept := h.of_eq hsetting hleft
  cases restored with
  | false =>
    refine observe_ensures.bind fun e' u hseen => ?_
    exact put_keeps (hkept.quiet hseen.quiet) hplain.fits
  | true =>
    refine observe_ensures.bind fun e' u hseen => ?_
    have hukept := hkept.quiet hseen.quiet
    dsimp only
    split
    · exact put_keeps hukept hplain.fits
    split
    · cases held with
      | none => exact (Prog.ends_pure _).mpr hukept
      | some held => exact put_keeps hukept hplain.fits
    split
    · next hrestored =>
      have hufile : u.file s.sid = true := hseen.quiet.file ▸ hfile rfl
      refine (drop_ensures hukept hplain.fits hufile (hseen.alike.contradiction.trans he)
        (hseen.daemon ▸ hrestored)).bind ?_
      rintro ⟨record', gone⟩ v ⟨hkept', hfits⟩
      dsimp only
      cases gone with
      | true =>
        cases armed with
        | true =>
          refine abandonHostArm_ensures.bind ?_
          rintro _ x ⟨hsetting, hleft⟩
          exact (Prog.ends_pure _).mpr (hkept'.of_eq hsetting hleft)
        | false => exact (Prog.ends_pure _).mpr hkept'
      | false => exact put_keeps hkept' hfits
    · exact put_keeps hukept hplain.fits

theorem armHost_ensures {deadline : String} :
    Ensures clock now (armHost s e deadline) (fun r t => t = w ∧ Alike e r.1) w := by
  rw [armHost]
  split
  · split_ifs
    · exact (Prog.ends_pure _).mpr ⟨rfl, .refl e⟩
    · refine (ask_same (.hostArm s deadline _) fun _ => rfl).bind ?_
      rintro reply t rfl
      split_ifs
      all_goals exact (Prog.ends_pure _).mpr ⟨rfl, ⟨rfl, rfl⟩⟩
  · exact (Prog.ends_pure _).mpr ⟨rfl, .refl e⟩

theorem undoActivation_keeps (h : Kept false record w) :
    Keeps clock none false (undoActivation clock s record) w := by
  refine (restore_keeps h).bind ?_
  rintro ⟨record', outcome⟩ t hkept
  exact (Prog.ends_pure _).mpr hkept

theorem afterRestart_keeps {held : Option Entry} (h : Kept false record w)
    (hplain : Plain record s.sid) (he : e.contradiction = false) :
    Keeps clock none false (afterRestart clock s record e held) w := by
  refine observe_ensures.bind fun e' t hseen => ?_
  have hkept := h.quiet hseen.quiet
  have he' : e'.contradiction = false := hseen.alike.contradiction.trans he
  split
  · exact didNotTake_keeps hkept hplain he'
  · refine Prog.Ends.bind (put_plain hkept hplain ?_) ?_
    · exact he'
    · rintro ⟨record', stored⟩ u ⟨hkept', -⟩
      dsimp only
      split
      · exact (Prog.ends_pure _).mpr hkept'
      · exact undoActivation_keeps hkept'

theorem afterWrite_keeps {held : Option Entry} (h : Kept false record w)
    (hplain : Plain record s.sid) (he : e.contradiction = false) :
    Keeps clock none false (afterWrite clock s record e held) w := by
  refine Prog.Ends.bind (put_plain h hplain ?_) ?_
  · exact he
  rintro ⟨record', stored⟩ t ⟨hkept, hplain'⟩
  cases stored with
  | false =>
    refine revertFile_ensures.bind ?_
    rintro restored u ⟨hsetting, hleft, -⟩
    exact (Prog.ends_pure _).mpr (hkept.of_eq hsetting hleft)
  | true =>
    refine daemonStep_ensures.bind ?_
    rintro ⟨e', mode⟩ u ⟨halike, hquiet⟩
    have he' : e'.contradiction = false := halike.contradiction.trans he
    have hukept := hkept.quiet hquiet
    dsimp only
    split
    · refine observe_ensures.bind fun e'' v hseen => ?_
      have hvkept := hukept.quiet hseen.quiet
      have he'' : e''.contradiction = false := hseen.alike.contradiction.trans he'
      split
      · refine Prog.Ends.bind (put_plain hvkept hplain' ?_) ?_
        · exact he''
        · rintro ⟨record'', stored⟩ x ⟨hkept', -⟩
          dsimp only
          split
          · exact (Prog.ends_pure _).mpr hkept'
          · exact undoActivation_keeps hkept'
      split
      · exact put_keeps hvkept hplain'.fits
      · exact didNotTake_keeps hvkept hplain' he''
    · exact didNotTake_keeps hukept hplain' he'

theorem afterMarked_keeps {held : Option Entry} {deadline : String} {reloads : Bool}
    (h : Kept false record w) (hplain : Plain record s.sid) (he : e.contradiction = false) :
    Keeps clock none false (afterMarked clock s record e held deadline reloads) w := by
  refine armHost_ensures.bind ?_
  rintro ⟨e', answer⟩ t ⟨rfl, halike⟩
  have he' : e'.contradiction = false := halike.contradiction.trans he
  cases answer with
  | armed =>
    cases reloads with
    | true => exact afterWrite_keeps h hplain he'
    | false => exact afterRestart_keeps h hplain he'
  | refused written conflict line =>
    cases written with
    | true =>
      refine abandonHostArm_ensures.bind ?_
      rintro _ u ⟨hsetting, hleft⟩
      exact didNotTake_keeps (h.of_eq hsetting hleft) hplain he'
    | false => exact didNotTake_keeps h hplain he'

theorem activate_keeps {held : Option Entry} {deadline : String} (h : Kept false record w)
    (hplain : Plain record s.sid) :
    Keeps clock none false (activate clock s record held deadline) w := by
  have hchange : Ensures clock none (change s (.set deadline) true true) (fun _ t =>
      t.setting = w.setting ∧ t.left = w.left) w := by
    refine reloadSupport_ensures.bind ?_
    rintro support t rfl
    split
    · exact (Prog.ends_pure _).mpr ⟨rfl, rfl⟩
    · refine Prog.Ends.bind (Q := fun _ u => u.setting = t.setting ∧ u.left = t.left)
        (ask_ensures fun _ _ => ⟨rfl, rfl⟩) ?_
      rintro answer u hu
      exact (Prog.ends_pure _).mpr hu
  refine hchange.bind ?_
  rintro ⟨answer, support⟩ t ⟨hsetting, hleft⟩
  have hkept := h.of_eq hsetting hleft
  cases answer with
  | none => exact (Prog.ends_pure _).mpr hkept
  | some answer =>
    dsimp only
    split
    · exact put_keeps hkept hplain.fits
    split
    · exact (Prog.ends_pure _).mpr hkept
    · exact afterMarked_keeps hkept hplain rfl

theorem helperGate_ensures {held : Option Entry} :
    Ensures clock none (helperGate s held) (fun _ t => t = w) w := by
  refine (ask_same (.helperBuild s) fun _ => rfl).bind ?_
  rintro info t rfl
  split
  · exact (Prog.ends_pure _).mpr rfl
  split
  · exact (Prog.ends_pure _).mpr rfl
  · refine (ask_same (.hostStatus s) fun _ => rfl).bind ?_
    rintro status u rfl
    split_ifs
    all_goals exact (Prog.ends_pure _).mpr rfl

theorem turnOn_ensures {kea : List KeaServer} {minutes : ℕ} (hleft : w.left = []) :
    Ensures clock none (turnOn clock kea s minutes) (fun _ t => ∀ d ∈ t.left, d.Settled false) w := by
  have hstart : ∀ d ∈ w.left, d.Settled false := fun d hd => by simp [hleft] at hd
  refine (ask_same .enabled fun _ => rfl).bind ?_
  rintro enabled t rfl
  split
  · exact (Prog.ends_pure _).mpr hstart
  split
  · exact (Prog.ends_pure _).mpr hstart
  refine readRecord_ensures.bind ?_
  rintro record u ⟨rfl, loaded, rfl⟩
  split
  · exact (Prog.ends_pure _).mpr hstart
  split
  · exact (Prog.ends_pure _).mpr hstart
  split
  · exact (Prog.ends_pure _).mpr hstart
  dsimp only
  split
  · exact (Prog.ends_pure _).mpr hstart
  next hdamaged _ _ hagainst =>
  have hkept : Kept false (recordOf clock loaded u.setting) u :=
    kept_recordOf hleft (by simpa using hdamaged)
  have hplain : Plain (recordOf clock loaded u.setting) s.sid := by
    intro m hm
    rw [hm] at hagainst
    by_contra hcontradiction
    simp [Entry.standsAgainst, hcontradiction] at hagainst
  refine helperGate_ensures.bind ?_
  rintro refused v rfl
  split
  · exact (Prog.ends_pure _).mpr hstart
  · refine (ask_same .now fun _ => rfl).bind ?_
    rintro at_ x rfl
    split
    · exact (Prog.ends_pure _).mpr hstart
    · refine (activate_keeps hkept hplain).bind ?_
      rintro ⟨record', outcome⟩ y hkept'
      exact (Prog.ends_pure _).mpr hkept'.left

/-! ## The sweep -/

theorem fits_of_lookup (h : record.servers.lookup sid = some e) : Fits own record sid e := by
  intro m hm
  rw [h] at hm
  cases hm
  exact .refl _

/-- Where the record holds no entry of the server, any entry fits. -/
theorem fits_of_none (h : record.servers.lookup sid = none) : Fits own record sid e :=
  fun _ hm => nomatch hm.symm.trans h

/-- The stored entries are held at the end. -/
abbrev KeepsRecord (clock : Clock) (now : Option ℤ) (own : Bool) (p : InvM Record) (w : World) :
    Prop := Ensures clock now p (fun r t => Kept own r t) w

/-- The stored entries are held at the end, by the record of a pair. -/
abbrev KeepsFirst {α : Type} (clock : Clock) (now : Option ℤ) (own : Bool) (p : InvM (Record × α))
    (w : World) : Prop := Ensures clock now p (fun r t => Kept own r.1 t) w

theorem save_keeps {r : Record} (h : Kept own r w) :
    KeepsRecord clock now own (do let (record, _) ← save r; return record) w := by
  refine save_ensures.bind ?_
  rintro ⟨record', stored⟩ t hs
  exact (Prog.ends_pure _).mpr (h.saved hs).1

theorem putRecord_keeps (h : Kept own record w) (hfits : Fits own record sid e) :
    KeepsRecord clock now own (do let (record, _) ← put record sid e; return record) w := by
  refine (put_ensures h hfits).bind ?_
  rintro ⟨record', stored⟩ t ⟨hkept, -⟩
  exact (Prog.ends_pure _).mpr hkept

theorem putFirst_keeps {α : Type} {a : α} (h : Kept own record w) (hfits : Fits own record sid e) :
    KeepsFirst clock now own (do let (record, _) ← put record sid e; return (record, a)) w := by
  refine (put_ensures h hfits).bind ?_
  rintro ⟨record', stored⟩ t ⟨hkept, -⟩
  exact (Prog.ends_pure _).mpr hkept

theorem resume_keeps {known : List (String × KeaServer)} (h : Kept own record w) :
    KeepsRecord clock now own (resume known record) w := by
  rw [resume]
  dsimp only
  split
  · exact (Prog.ends_pure _).mpr h
  · refine save_keeps (h.later fun k m hm => ?_)
    dsimp only
    rw [lookup_map (f := fun e => { e with removed := false }), hm]
    refine ⟨_, rfl, ?_⟩
    dsimp only
    split_ifs
    · exact ⟨id, fun _ _ hr => hr⟩
    · exact .refl m

/-- The entry of a report. -/
def Report.entry : Report → Entry
  | .keep e | .restored e _ | .timerDown e | .rearm e => e

/-- A report changes nothing that decides whether the entry leaves. -/
theorem alike_reportOf {at_ : ℤ} {status : Fields} :
    Alike e (reportOf clock at_ status e).entry := by
  rw [reportOf]
  dsimp only
  split
  · split
    · exact ⟨rfl, rfl⟩
    · split
      · exact ⟨rfl, rfl⟩
      · exact ⟨rfl, rfl⟩
  split
  · exact ⟨rfl, rfl⟩
  split
  · split
    · exact ⟨rfl, rfl⟩
    · exact ⟨rfl, rfl⟩
  split
  · exact ⟨rfl, rfl⟩
  split
  · exact ⟨rfl, rfl⟩
  · exact ⟨rfl, rfl⟩

theorem takeReport_ensures {report : Report} :
    Ensures clock now (takeReport s report) (fun r t => t.setting = w.setting ∧ t.left = w.left ∧
      Alike report.entry r.1) w := by
  cases report with
  | keep e => exact (Prog.ends_pure _).mpr ⟨rfl, rfl, .refl e⟩
  | restored e recorded =>
    cases recorded with
    | true =>
      refine (ask_same (.recordDaemon s) fun _ => rfl).bind ?_
      rintro _ t rfl
      exact (Prog.ends_pure _).mpr ⟨rfl, rfl, .refl e⟩
    | false => exact (Prog.ends_pure _).mpr ⟨rfl, rfl, .refl e⟩
  | timerDown e =>
    refine (ask_same (.hostTimer s) fun _ => rfl).bind ?_
    rintro _ t rfl
    exact (Prog.ends_pure _).mpr ⟨rfl, rfl, .refl e⟩
  | rearm e =>
    refine armHost_ensures.bind ?_
    rintro ⟨e', answer⟩ t ⟨rfl, halike⟩
    cases answer with
    | armed => exact (Prog.ends_pure _).mpr ⟨rfl, rfl, halike⟩
    | refused written conflict line =>
      cases written with
      | true =>
        refine abandonHostArm_ensures.bind ?_
        rintro _ u ⟨hsetting, hleft⟩
        exact (Prog.ends_pure _).mpr ⟨hsetting, hleft, halike.contradiction, halike.restore⟩
      | false => exact (Prog.ends_pure _).mpr ⟨rfl, rfl, halike.contradiction, halike.restore⟩

theorem hostPhase_keeps {known : List (String × KeaServer)} {at_ : ℤ}
    {acc : Record × List String} (h : Kept own acc.1 w) :
    KeepsFirst clock now own (hostPhase clock known at_ sid acc) w := by
  obtain ⟨record, done⟩ := acc
  rw [hostPhase]
  dsimp only
  split
  · next s e _ hlookup =>
    split
    · exact (Prog.ends_pure _).mpr h
    · refine (ask_same (.hostStatus s) fun _ => rfl).bind ?_
      rintro status t rfl
      refine takeReport_ensures.bind ?_
      rintro ⟨new, restored⟩ u ⟨hsetting, hleft, halike⟩
      have hkept := Kept.of_eq h hsetting hleft
      have hfits : Fits own record sid new :=
        (fits_of_lookup hlookup).trans (alike_reportOf.trans halike).continues
      dsimp only
      split
      · exact putFirst_keeps hkept hfits
      · exact (Prog.ends_pure _).mpr (Kept.hold hkept hfits)
  · exact (Prog.ends_pure _).mpr h

theorem orphan_keeps {known : List (String × KeaServer)} (h : Kept own record w) :
    KeepsRecord clock now own (orphan known sid record) w := by
  rw [orphan]
  split
  · next e hlookup =>
    split
    · exact (Prog.ends_pure _).mpr h
    · exact save_keeps (h.hold ((fits_of_lookup hlookup).trans ⟨id, fun _ _ hr => hr⟩))
  · exact (Prog.ends_pure _).mpr h

/-- A read of a file leaves the index. -/
theorem readConfig_ensures : Ensures clock now (ask (.readConfig s)) (fun _ t =>
    t.setting = w.setting ∧ t.left = w.left) w := by
  refine ask_ensures fun c _ => ?_
  dsimp only [World.after]
  split <;> exact ⟨rfl, rfl⟩

theorem fileCarriesMarker_ensures : Ensures clock now (fileCarriesMarker s) (fun _ t =>
    t.setting = w.setting ∧ t.left = w.left) w := by
  refine readConfig_ensures.bind ?_
  rintro answer t ht
  split <;> exact (Prog.ends_pure _).mpr ht

theorem lookAgain_keeps {known : List (String × KeaServer)} {scanned : List String}
    (h : Kept own record w) : KeepsRecord clock now own (lookAgain known scanned sid record) w := by
  rw [lookAgain]
  split
  · next s e _ hlookup =>
    split
    · exact (Prog.ends_pure _).mpr h
    · refine observe_ensures.bind fun e' t hseen => ?_
      refine fileCarriesMarker_ensures.bind ?_
      rintro carries u ⟨hsetting, hleft⟩
      have hkept := (h.quiet hseen.quiet).of_eq hsetting hleft
      have hfits : Fits own record sid e' :=
        (fits_of_lookup hlookup).trans hseen.alike.continues
      dsimp only
      generalize hnew : (if carries = some false then _ else _ : Entry) = new
      have hnewFits : Fits own record sid new := by
        rw [← hnew]
        refine hfits.trans ?_
        split_ifs <;> exact ⟨id, fun _ _ hr => hr⟩
      split
      · exact putRecord_keeps hkept hnewFits
      · exact (Prog.ends_pure _).mpr (hkept.hold hnewFits)
  · exact (Prog.ends_pure _).mpr h

theorem repaired_keeps (h : Kept own record w) :
    KeepsRecord clock now own (repaired sid record) w := by
  rw [repaired]
  split
  · next e hlookup =>
    split
    · exact (Prog.ends_pure _).mpr h
    · exact putRecord_keeps h ((fits_of_lookup hlookup).trans ⟨id, fun _ _ hr => hr⟩)
  · exact (Prog.ends_pure _).mpr h

theorem scanClean_keeps {at_ : ℤ} (h : Kept own record w) :
    KeepsFirst clock now own (scanClean clock at_ sid s record) w := by
  refine Prog.Ends.bind (Q := fun _ t => Quiet w t) (ask_quiet _ fun _ => ⟨rfl, rfl, rfl⟩) ?_
  intro reply t hquiet
  dsimp only
  split
  · next hnone _ => exact putFirst_keeps (h.quiet hquiet) (fits_of_none hnone)
  · exact (Prog.ends_pure _).mpr (h.quiet hquiet)

theorem scanMarked_keeps {at_ : ℤ} {marker : Fields} (h : Kept own record w) :
    KeepsFirst clock now own (scanMarked clock at_ sid s marker record) w := by
  refine (repaired_keeps h).bind fun record' t hkept => ?_
  dsimp only
  split
  · exact (Prog.ends_pure _).mpr hkept
  split
  · exact (Prog.ends_pure _).mpr hkept
  next hnone =>
  refine observe_ensures.bind fun e' u hseen => ?_
  exact putFirst_keeps (hkept.quiet hseen.quiet)
    (fits_of_none (Option.not_isSome_iff_eq_none.mp hnone))

theorem scan_keeps {at_ : ℤ} (h : Kept own record w) :
    KeepsFirst clock now own (scan clock at_ sid s record) w := by
  refine readConfig_ensures.bind ?_
  rintro (_ | cfg) t ⟨hsetting, hleft⟩
  · exact (Prog.ends_pure _).mpr (h.of_eq hsetting hleft)
  · have hkept := h.of_eq hsetting hleft
    dsimp only
    split
    · refine putFirst_keeps hkept ?_
      cases hlookup : record.servers.lookup sid with
      | none => exact fits_of_none hlookup
      | some e => exact (fits_of_lookup hlookup).trans ⟨id, fun _ _ hr => hr⟩
    · split
      · exact scanClean_keeps hkept
      · exact scanMarked_keeps hkept

theorem scanOther_keeps {at_ : ℤ} {scanned : List String} {x : String × KeaServer}
    {acc : Record × List (String × KeaServer)} (h : Kept own acc.1 w) :
    KeepsFirst clock now own (scanOther clock at_ scanned x acc) w := by
  rw [scanOther]
  split
  · exact (Prog.ends_pure _).mpr h
  · refine (scan_keeps h).bind ?_
    rintro ⟨record', isDue⟩ t hkept
    exact (Prog.ends_pure _).mpr hkept

theorem fullScan_keeps {at_ : ℤ} {full : Bool} {known due : List (String × KeaServer)}
    (h : Kept own record w) :
    KeepsFirst clock now own (fullScan clock at_ full known record due) w := by
  rw [fullScan]
  split
  · exact Prog.Ends.fold (fun x _ acc t hkept => scanOther_keeps hkept) h
  · exact (Prog.ends_pure _).mpr h

theorem sweepRestore_keeps {at_ : ℤ} {x : String × KeaServer} (h : Kept own record w) :
    KeepsRecord clock (some at_) own (sweepRestore clock at_ x record) w := by
  refine (restore_keeps h).bind ?_
  rintro ⟨record', outcome⟩ t hkept
  dsimp only
  split
  · next hnone => exact putRecord_keeps hkept (fits_of_none (by simpa using hnone.2))
  · exact (Prog.ends_pure _).mpr hkept

/-- A sweep of an index that can be read lets go of no entry that is not settled. -/
theorem sweepIndex_ensures {kea : List KeaServer} {at_ : ℤ} {full : Bool} (h : Kept own record w) :
    Ensures clock (some at_) (sweepIndex clock kea record at_ full)
      (fun _ t => ∀ d ∈ t.left, d.Settled own) w := by
  refine (resume_keeps h).bind fun record₁ t₁ h₁ => ?_
  refine Prog.Ends.bind (Q := fun acc t => Kept own acc.1 t)
    (Prog.Ends.fold (fun sid _ acc t hkept => hostPhase_keeps hkept) h₁) ?_
  rintro ⟨record₂, done⟩ t₂ h₂
  refine Prog.Ends.bind (Q := fun record t => Kept own record t)
    (Prog.Ends.fold (fun sid _ record t hkept => orphan_keeps hkept) h₂) fun record₃ t₃ h₃ => ?_
  refine Prog.Ends.bind (Q := fun record t => Kept own record t)
    (Prog.Ends.fold (fun sid _ record t hkept => lookAgain_keeps hkept) h₃)
    fun record₄ t₄ h₄ => ?_
  refine (fullScan_keeps h₄).bind ?_
  rintro ⟨record₅, due⟩ t₅ h₅
  refine Prog.Ends.bind (Q := fun record t => Kept own record t)
    (Prog.Ends.fold (fun x _ record t hkept => sweepRestore_keeps hkept) h₅)
    fun record₆ t₆ h₆ => ?_
  exact (Prog.ends_pure _).mpr h₆.left

theorem sweep_ensures {kea : List KeaServer} {at_ : ℤ} {full : Bool} (hleft : w.left = [])
    (hreadable : ∀ loaded, (recordOf clock loaded w.setting).damaged = true →
      (recordOf clock loaded w.setting).unavailable = true) :
    Ensures clock (some at_) (sweep clock kea at_ full) (fun _ t => ∀ d ∈ t.left, d.Settled true) w := by
  refine readRecord_ensures.bind ?_
  rintro record t ⟨rfl, loaded, rfl⟩
  split
  · next hdamaged =>
    -- nothing is written while the settings cannot be read
    rw [recover, if_pos (.inl (hreadable loaded hdamaged))]
    exact (Prog.ends_pure _).mpr fun d hd => by simp [hleft] at hd
  · next hdamaged => exact sweepIndex_ensures (kept_recordOf hleft (by simpa using hdamaged))

end Acts

/-! ## Acts and runs -/

/-- What runs on the index, each under the lock of the module. -/
inductive Act where
  | turnOn (kea : List KeaServer) (s : KeaServer) (minutes : ℕ)
  | turnOff (s : KeaServer)
  | sweep (kea : List KeaServer) (now : ℤ) (full : Bool)

/-- The program of an act. -/
def Act.program (clock : Clock) : Act → InvM Unit
  | .turnOn kea s minutes => do let _ ← Investigation.turnOn clock kea s minutes
  | .turnOff s => do let _ ← Investigation.turnOff clock s
  | .sweep kea now full => Investigation.sweep clock kea now full

/-- The time by which the act puts loggers back. -/
def Act.time : Act → Option ℤ
  | .sweep _ now _ => some now
  | _ => none

/-- The act is about the session that the entry holds; `turn_on` is about a new one. -/
def Act.own : Act → Bool
  | .turnOn .. => false
  | _ => true

/-- The world after an act, with the entries that left because of it. -/
def World.act (clock : Clock) (w : World) (a : Act) (f : ℕ → Decision) : World :=
  ((a.program clock).run (host clock) f { w with left := [] }).state

/-- The index can be read, or is left alone since the settings cannot. -/
def World.Readable (clock : Clock) (w : World) : Prop :=
  ∀ loaded, (recordOf clock loaded w.setting).damaged = true →
    (recordOf clock loaded w.setting).unavailable = true

/-- What the act finds: a sweep can read the index, and no file that it puts back by its time carries a
marker whose deadline is ahead. -/
structure World.Meets (clock : Clock) (w : World) (a : Act) (f : ℕ → Decision) : Prop where
  readable : a.time.isSome → w.Readable clock
  due : ∀ n, Due clock a.time (f n)

/-- An act lets go of no entry that is not settled: each server with an entry has one after the act, or its
entry left, and each entry that left was settled. -/
structure World.Holds (clock : Clock) (w : World) (a : Act) (f : ℕ → Decision) : Prop where
  stays : ∀ sid, (w.setting.entries.lookup sid).isSome →
    ((w.act clock a f).setting.entries.lookup sid).isSome ∨
      ∃ d ∈ (w.act clock a f).left, d.sid = sid
  settled : ∀ d ∈ (w.act clock a f).left, d.Settled a.own

/-- Every act of a run meets the condition. -/
def World.AllMeet (clock : Clock) (w : World) : List (Act × (ℕ → Decision)) → Prop
  | [] => True
  | (a, f) :: run => w.Meets clock a f ∧ (w.act clock a f).AllMeet clock run

/-- No act of a run lets go of an entry that is not settled. -/
def World.AllHold (clock : Clock) (w : World) : List (Act × (ℕ → Decision)) → Prop
  | [] => True
  | (a, f) :: run => w.Holds clock a f ∧ (w.act clock a f).AllHold clock run

section Runs

variable {clock : Clock} {w : World} {a : Act} {f : ℕ → Decision}

/-- Each entry of `w` is stored, or left. -/
def Covers (w t : World) : Prop :=
  ∀ sid, (w.setting.entries.lookup sid).isSome →
    (t.setting.entries.lookup sid).isSome ∨ ∃ d ∈ t.left, d.sid = sid

/-- The entries that leave are written down. -/
theorem exists_departure {servers : Servers} {sid : String}
    (hstored : (w.setting.entries.lookup sid).isSome) (hgone : servers.lookup sid = none) :
    ∃ d ∈ w.departures servers, d.sid = sid := by
  obtain ⟨e, he⟩ := Option.isSome_iff_exists.mp hstored
  have hmem : (sid, e) ∈ w.setting.entries := by
    obtain ⟨before, after, hentries, -⟩ := List.lookup_eq_some_iff.mp he
    rw [hentries]
    exact List.mem_append_right before List.mem_cons_self
  refine ⟨{ sid, entry := e, file := w.file sid, daemon := w.daemon sid }, ?_, rfl⟩
  refine List.mem_filterMap.mpr ⟨sid, List.mem_map.mpr ⟨(sid, e), hmem, rfl⟩, ?_⟩
  rw [he, hgone]

/-- An operation loses no entry that it does not write down. -/
theorem covers_after {t : World} (o : InvOp) (answer : o.Result) (h : Covers w t) :
    Covers w (t.after clock o answer) := by
  intro sid hsid
  cases o with
  | save servers =>
    dsimp only [World.after]
    split_ifs
    · rcases h sid hsid with hstored | ⟨d, hd, hdsid⟩
      · cases hlookup : servers.lookup sid with
        | some e => exact .inl (by simp [Stored.entries, hlookup])
        | none =>
          obtain ⟨d, hd, hdsid⟩ := exists_departure hstored hlookup
          exact .inr ⟨d, List.mem_append_right _ hd, hdsid⟩
      · exact .inr ⟨d, List.mem_append_left _ hd, hdsid⟩
    · exact h sid hsid
  | hostDisarm s =>
    dsimp only [World.after]
    split_ifs
    · exact h sid hsid
    · exact h sid hsid
  | readConfig s =>
    dsimp only [World.after]
    split
    · exact h sid hsid
    · exact h sid hsid
  | _ => exact h sid hsid

/-- Every act writes down what leaves. -/
theorem covers_act : Covers w (w.act clock a f) := by
  have hstart : Covers w { w with left := [] } := fun _ hsid => .inl hsid
  have hwp := Prog.wp_of_keeps (h := host clock) (J := Covers w)
    (fun o c t => covers_after o (t.answer c o)) (a.program clock) hstart
  exact (Prog.wp_sound hwp f).1

/-- What an act lets go of is settled, where it meets the condition. -/
theorem Act.ensures (hleft : w.left = []) (hreadable : a.time.isSome → w.Readable clock) :
    Ensures clock a.time (a.program clock) (fun _ t => ∀ d ∈ t.left, d.Settled a.own) w := by
  cases a with
  | turnOn kea s minutes =>
    refine (turnOn_ensures hleft).bind fun _ t ht => ?_
    exact (Prog.ends_pure _).mpr ht
  | turnOff s =>
    refine (turnOff_ensures hleft).bind fun _ t ht => ?_
    exact (Prog.ends_pure _).mpr ht
  | sweep kea now full => exact sweep_ensures hleft (hreadable rfl)

/-- A step of a run. -/
theorem World.Meets.holds (h : w.Meets clock a f) : w.Holds clock a f := by
  refine ⟨covers_act, ?_⟩
  have hensures := Act.ensures (a := a) (w := { w with left := [] }) rfl h.readable
  cases hresult : ((a.program clock).run (host clock) f { w with left := [] }).result with
  | error e => exact nomatch e
  | ok u => exact hensures.sound f h.due hresult

end Runs

/-- Two times that can be read, noon and two hours later; the seconds of a day are enough here. -/
def noonClock : Clock where
  parse until_ :=
    if until_ = .str "12:00" then some 43200 else if until_ = .str "14:00" then some 50400 else none
  iso _ := "12:00"

/-- A Kea server with an SSH host. -/
def kitchen : KeaServer := { id := some 2, name := "kitchen", sshHost := "10.0.0.7" }

/-- A way back to a logger at INFO. -/
def infoRestore : Json := .obj [("severity", .str "INFO"), ("debuglevel", .int 0)]

/-- The session of the server, until noon. -/
def noonEntry : Entry :=
  { name := "kitchen", deadline := "12:00", sshHost := "10.0.0.7", restore := some infoRestore }

/-- A configuration with this logger. -/
def withLogger (logger : Fields) : Fields :=
  [("Dhcp4", .obj [("loggers", .arr [.obj (("name", .str "kea-dhcp4") :: logger)])])]

/-- The logger of a session, with its marker. -/
def debugLogger (until_ : String) : Fields :=
  [("severity", .str "DEBUG"), ("debuglevel", .int 55),
    ("user-context", .obj
      [("jen-investigation", .obj [("until", .str until_), ("restore", infoRestore)])])]

/-- A logger without a marker. -/
def plainLogger (severity : String) : Fields := [("severity", .str severity), ("debuglevel", .int 0)]

/-- A host whose files carry `file`, and whose daemons run `daemon`; Jen's database takes every write. -/
def answering (file daemon : Fields) : Decision
  | .enabled | .settingsLoaded | .keepDamaged | .save _ => true
  | .setting => .unreadable
  | .now => 45000
  | .listCommands _ => some ["config-reload"]
  | .configGet .. => some (.obj (withLogger daemon))
  | .configReload _ | .restart _ => true
  | .recordDaemon _ | .hostTimer _ => ()
  | .applyChange .. => .read (withLogger file) .written
  | .readConfig _ => some (some (withLogger file))
  | .helperBuild _ | .hostStatus _ | .hostArm .. | .hostDisarm _ => []

/-- An index of these entries. -/
def holding (entries : Servers) : World :=
  { setting := .servers entries, file := fun _ => false, daemon := fun _ => none }

/-- The sweep at half past twelve. -/
def sweepAfterNoon : Act := .sweep [kitchen] 45000 false

end JenKea.Investigation
