import Mathlib.Algebra.Order.Floor.Ring
import Mathlib.Data.Rat.Floor
import Mathlib.Tactic.Linarith
import JenKea.Lib.Clock
import JenKea.Api.LostSet

/-!
# A file that the daemon has loaded

What `file_proof` means when it answers that a file is loaded. A history of a daemon and its file is made
of edits by hand, loads by a restart or a reload, `config-set`s of Jen or of another program, and
`config-write`s, each at its time. The proof reads the time at which the file was written, up to the next
second, and the time of the daemon's last commit, in whole seconds; so it cannot tell a load from another
commit, nor an edit from one that was made within a second before. This file says which histories hide an
edit behind that, and that in all others a file that is proved so was loaded.
-/

namespace JenKea.Api

variable {H : Type}

/-- A daemon and its file in time, on the host's clock. -/
structure Site (H : Type) where
  world : World H
  /-- When the file was written. -/
  writtenAt : ℚ
  /-- When the daemon last committed a configuration. -/
  committedAt : ℚ
  now : ℚ
  /-- The files that the daemon loaded or wrote, and when. -/
  taken : List ((Cfg × H) × ℚ)

/-- What happens to a daemon and its file. -/
inductive Event (H : Type) where
  /-- The file is written by hand, or by another program. -/
  | edit (file : Cfg × H)
  /-- A restart, or a reload, that takes the file. -/
  | load
  /-- A `config-set`, by Jen or by another program. -/
  | set (body : Cfg)
  | write
  /-- Jen's records change. -/
  | record (store : Store H)

namespace Site

section Events

variable (kea : Kea H) (server : Server) (service : Service)

/-- A daemon that was started on its file. -/
def start (file : Cfg × H) (store : Store H) (writtenAt startedAt : ℚ) : Site H where
  world := ⟨kea.render (sectionOf (some file.1) service), some file, store, []⟩
  writtenAt := writtenAt
  committedAt := startedAt
  now := startedAt
  taken := [(file, startedAt)]

/-- What an event does at its time. -/
def step (s : Site H) (t : ℚ) : Event H → Site H
  | .edit file => { s with world := { s.world with file := some file }, writtenAt := t, now := t }
  | .load =>
    match s.world.file with
    | none => { s with now := t }
    | some file =>
      { s with
        world := { s.world with running := kea.render (sectionOf (some file.1) service) }
        committedAt := t, now := t, taken := s.taken ++ [(file, t)] }
  | .set body =>
    { s with world := kea.after s.world service true (.configSet body), committedAt := t, now := t }
  | .write =>
    let world := kea.after s.world service true .configWrite
    { s with
      world := world, writtenAt := t, now := t
      taken := s.taken ++ (world.file.map fun file => (file, t)).toList }
  | .record store => { s with world := { s.world with store := store }, now := t }

/-- What a history does. -/
def run (s : Site H) (history : List (ℚ × Event H)) : Site H :=
  history.foldl (fun s x => s.step kea service x.1 x.2) s

/-- Time does not go back. -/
def Ordered : ℚ → List (ℚ × Event H) → Prop
  | _, [] => True
  | now, x :: history => now ≤ x.1 ∧ Ordered x.1 history

/-! ## Hidden edits -/

/-- The daemon has loaded or written the file, as it is, since it was written. -/
def Taken (s : Site H) : Prop :=
  ∃ file, s.world.file = some file ∧ ∃ x ∈ s.taken, x.1 = file ∧ s.writtenAt ≤ x.2

/-- What the daemon runs carries the file. -/
def Carried (s : Site H) : Prop :=
  ∃ file, s.world.file = some file ∧
    fileInDaemon (some file.1) (some (reported service s.world.running)) service = true

section Record

variable [DecidableEq H]

/-- A change of Jen's is on record. -/
def Shielded (s : Site H) : Prop :=
  ∃ sid, server.id = some sid ∧ (s.world.store.pending sid service).isSome = true

/-- The event does not hide an edit that the daemon has not loaded. An edit adds something to what the
daemon runs, or comes a second after its last commit; a `config-set` finds no such edit or does not carry
it; and a record that Jen removes leaves no such edit behind, unless it has come a second after the last
commit or is not carried. While a change of Jen's is on record, it shields the edit. -/
def Shows (s : Site H) (t : ℚ) (e : Event H) : Prop :=
  match e with
  | .edit _ => s.committedAt + 1 ≤ t ∨ Shielded server service s ∨
      ¬ Carried service (s.step kea service t e)
  | .set _ => Taken s ∨ Shielded server service s ∨ ¬ Carried service (s.step kea service t e)
  | .record _ => Shielded server service s → Shielded server service (s.step kea service t e) ∨
      Taken s ∨ s.committedAt + 1 ≤ s.writtenAt ∨ ¬ Carried service s
  | .load | .write => True

/-- No event of a history hides an edit. -/
def ShowsAll : Site H → List (ℚ × Event H) → Prop
  | _, [] => True
  | s, x :: history =>
    Shows kea server service s x.1 x.2 ∧ ShowsAll (s.step kea service x.1 x.2) history

/-- What holds as long as no edit is hidden: the file was loaded, or the proof can tell that it was not. -/
def Plain (s : Site H) : Prop :=
  Taken s ∨ Shielded server service s ∨ s.committedAt + 1 ≤ s.writtenAt ∨ ¬ Carried service s

end Record

end Events

section Steps

variable [DecidableEq H] {kea : Kea H} {server : Server} {service : Service} {s : Site H} {t : ℚ}
  {history : List (ℚ × Event H)}

omit [DecidableEq H] in
/-- The file was written before now. -/
theorem written_step (h : s.writtenAt ≤ s.now) (ht : s.now ≤ t) (e : Event H) :
    (s.step kea service t e).writtenAt ≤ (s.step kea service t e).now ∧
      (s.step kea service t e).now = t := by
  cases e with
  | load =>
    unfold step
    cases s.world.file <;> exact ⟨h.trans ht, rfl⟩
  | edit file => exact ⟨le_rfl, rfl⟩
  | write => exact ⟨le_rfl, rfl⟩
  | _ => exact ⟨h.trans ht, rfl⟩

omit [DecidableEq H] in
/-- Each event that hides no edit keeps every edit plain. -/
theorem Plain.step (h : Plain server service s) (hwritten : s.writtenAt ≤ s.now) (ht : s.now ≤ t)
    {e : Event H} (hshows : Shows kea server service s t e) :
    Plain server service (s.step kea service t e) := by
  cases e with
  | edit file =>
    rcases hshows with hlate | hrecord | hnot
    · exact .inr (.inr (.inl hlate))
    · exact .inr (.inl hrecord)
    · exact .inr (.inr (.inr hnot))
  | load =>
    cases hfile : s.world.file with
    | none =>
      -- without a file there is nothing to load
      right; right; right
      rintro ⟨file, hsome, -⟩
      unfold Site.step at hsome
      rw [hfile] at hsome
      dsimp only at hsome
      rw [hfile] at hsome
      cases hsome
    | some file =>
      left
      have hstep : s.step kea service t .load = { s with
          world := { s.world with running := kea.render (sectionOf (some file.1) service) }
          committedAt := t, now := t, taken := s.taken ++ [(file, t)] } := by
        unfold Site.step
        rw [hfile]
      rw [hstep]
      exact ⟨file, hfile, (file, t), List.mem_append_right _ List.mem_cons_self, rfl,
        hwritten.trans ht⟩
  | set body =>
    rcases hshows with htaken | hrecord | hnot
    · exact .inl htaken
    · exact .inr (.inl hrecord)
    · exact .inr (.inr (.inr hnot))
  | write =>
    left
    exact ⟨_, rfl, (_, t), List.mem_append_right _ List.mem_cons_self, rfl, le_rfl⟩
  | record store =>
    -- only a record that goes may uncover an edit
    have hcases : Shielded server service (s.step kea service t (.record store)) ∨ Taken s ∨
        s.committedAt + 1 ≤ s.writtenAt ∨ ¬ Carried service s := by
      rcases h with htaken | hrecord | hlate
      · exact .inr (.inl htaken)
      · exact hshows hrecord
      · exact .inr (.inr hlate)
    rcases hcases with hrecord | htaken | hlate | hnot
    · exact .inr (.inl hrecord)
    · exact .inl htaken
    · exact .inr (.inr (.inl hlate))
    · exact .inr (.inr (.inr hnot))

omit [DecidableEq H] in
/-- In a history that hides no edit, every edit is plain. -/
theorem Plain.run (h : Plain server service s) (hwritten : s.writtenAt ≤ s.now)
    (hordered : Ordered s.now history) (hshows : ShowsAll kea server service s history) :
    Plain server service (s.run kea service history) := by
  induction history generalizing s with
  | nil => exact h
  | cons x history ih =>
    obtain ⟨ht, hrest⟩ := hordered
    obtain ⟨hx, hshows⟩ := hshows
    obtain ⟨hwritten', hnow⟩ := @written_step _ kea service _ _ hwritten ht x.2
    have hplain := h.step hwritten ht hx
    refine ih hplain hwritten' ?_ hshows
    rw [hnow]
    exact hrest

end Steps

/-! ## The proof's clock -/

/-- What the host says of its times is true: the file's time is rounded up, its clock is read before the
daemon is asked, and the daemon counts the whole seconds since its last commit. -/
def Truthful (s : Site H) (times : Option Times) : Prop :=
  ∀ t, times = some t → ∃ asked heard : ℚ, s.now ≤ asked ∧ asked ≤ heard ∧
    (∀ mtime, t.mtime = some mtime → mtime = ⌈s.writtenAt⌉) ∧
    (∀ now, t.now = some now → now = ⌊asked⌋) ∧
    ∀ daemon reload, t.daemon = some daemon → daemon.reload = some reload →
      reload = ⌊heard - s.committedAt⌋

/-- A file that the host says is no newer than the last commit was written less than a second after it. -/
theorem written_lt (s : Site H) {f : FileRead H} {mtime loadedAt : ℤ} (h : Truthful s f.times)
    (hmtime : f.mtime = some mtime) (hloaded : f.loadedAt = some loadedAt) (hle : mtime ≤ loadedAt) :
    s.writtenAt < s.committedAt + 1 := by
  unfold FileRead.mtime at hmtime
  obtain ⟨t, ht, hmtime⟩ := Option.bind_eq_some_iff.mp hmtime
  obtain ⟨asked, heard, -, hheard, hm, hnow, hreload⟩ := h t ht
  have hmtime' := hm mtime (Option.filter_eq_some_iff.mp hmtime).1
  unfold FileRead.loadedAt at hloaded
  rw [ht, Option.bind_some] at hloaded
  unfold Times.loadedAt at hloaded
  simp only [Option.bind_eq_bind, Option.bind_eq_some_iff, Option.pure_def, Option.some.injEq] at hloaded
  obtain ⟨daemon, hdaemon, now, hnow', reload, hreload', rfl⟩ := hloaded
  have hn := hnow now (Option.filter_eq_some_iff.mp hnow').1
  have hr := hreload daemon reload hdaemon (Option.filter_eq_some_iff.mp hreload').1
  rw [hmtime', hn, hr] at hle
  exact Clock.lt_of_ceil_le hheard hle

/-! ## What the proof establishes -/

section Proof

variable [DecidableEq H] {kea : Kea H} {server : Server} {service : Service} {s : Site H}
  {planned : Option H} {capture : Bool} {w : World H}

/-- What a proof by a load is made from: the file was written less than a second after the last commit, no
change is on record, and what the daemon runs carries the file. -/
structure ByLoad (server : Server) (service : Service) (s : Site H) (sha : Option H) : Prop where
  file : ∃ file, s.world.file = some file ∧ sha = some file.2
  time : s.writtenAt < s.committedAt + 1
  free : ¬ Shielded server service s
  carried : Carried service s

/-- The host's times are true at every call. -/
abbrev Timed (s : Site H) (d : Fate H) : Prop := Truthful s d.times

omit [DecidableEq H] in
theorem not_shielded_of_quiet (h : QuietSince s.world w)
    (hfree : ∀ sid, server.id = some sid → w.store.pending sid service = none) :
    ¬ Shielded server service s := by
  rintro ⟨sid, hid, hsome⟩
  obtain ⟨row, hrow⟩ := Option.isSome_iff_exists.mp hsome
  obtain ⟨hmem, hpending⟩ := Store.newest_mem hrow
  have hsource : row.source = .pending := by
    rw [Bool.and_eq_true] at hpending
    exact beq_iff_eq.mp hpending.2
  have hnone := List.find?_eq_none.mp (hfree sid hid) row ((h.pending row hsource).mpr hmem)
  exact hnone hpending

omit [DecidableEq H] in
/-- Another proof says nothing of a load. -/
theorem byLoad_of_ne {p proof : Proof H} (h : (Except.ok p : Except Exc (Proof H)) = .ok proof)
    (hne : p.how ≠ .loaded) : proof.how = .loaded → ByLoad server service s proof.sha256 := by
  obtain rfl := Except.ok.inj h
  exact fun hhow => absurd hhow hne

/-- The record says that there is no change only where there is none. -/
theorem onRecord_ensures (h : QuietSince s.world w) :
    kea.Ensures (Timed s) (fun _ => True) (onRecord server service)
      (fun r t => QuietSince s.world t ∧ (r = .ok .nothing → ¬ Shielded server service s)) w := by
  unfold onRecord
  cases hid : server.id with
  | none =>
    refine ⟨h, fun _ => ?_⟩
    rintro ⟨sid, hsome, -⟩
    rw [hid] at hsome
    cases hsome
  | some sid =>
    refine (Prog.wp_handle _ _ _).mpr ((Prog.wp_bind _ _ _).mpr (ask_ensures trivial
      (fun e => ?_) fun d _ => ⟨trivial, ?_⟩))
    · cases e <;> exact ⟨h, nofun⟩
    · simp only [Kea.does]
      by_cases hreadable : d.storeReadable = true
      · rw [if_pos hreadable]
        refine ⟨h, fun hnothing => not_shielded_of_quiet h fun sid' hid' => ?_⟩
        obtain rfl : sid = sid' := Option.some.inj (hid.symm.trans hid')
        cases hpending : w.store.pending sid service with
        | none => rfl
        | some row => simp [hpending] at hnothing
      · rw [if_neg hreadable]
        exact ⟨h, nofun⟩

/-- What is read of the daemon is what it runs, and only where the times allow it. -/
theorem liveOnceLoaded_ensures {f : FileRead H} {record : OnRecord} (h : QuietSince s.world w) :
    kea.Ensures (Timed s) (fun _ => True) (liveOnceLoaded server service f record)
      (fun r t => QuietSince s.world t ∧ ∀ live, r = .ok (some live) →
        live = reported service s.world.running ∧ record = .nothing ∧
          ∃ mtime loadedAt, f.mtime = some mtime ∧ f.loadedAt = some loadedAt ∧ mtime ≤ loadedAt) w := by
  unfold liveOnceLoaded
  split_ifs with htimes
  · obtain ⟨hany, hrecord⟩ := htimes
    have hle : ∃ mtime loadedAt, f.mtime = some mtime ∧ f.loadedAt = some loadedAt ∧ mtime ≤ loadedAt := by
      cases hmtime : f.mtime with
      | none => simp [hmtime] at hany
      | some mtime =>
        cases hloaded : f.loadedAt with
        | none => simp [hmtime, hloaded] at hany
        | some loadedAt => exact ⟨mtime, loadedAt, rfl, rfl, by simpa [hmtime, hloaded] using hany⟩
    refine (Prog.wp_bind _ _ _).mpr (get_ensures trivial (fun e => ⟨h, (by rintro _ ⟨⟩)⟩) (fun why => ?_) ?_)
    · exact ⟨h, (by rintro _ ⟨⟩)⟩
    · refine ⟨h, fun live hlive => ⟨?_, hrecord, hle⟩⟩
      rw [← Option.some.inj (Except.ok.inj hlive), h.running]
  · exact ⟨h, (by rintro _ ⟨⟩)⟩

/-- The last part of a proof says that the file is loaded only by such a proof. -/
theorem proofByLoad_ensures {f : FileRead H} {file : Cfg × H} (hfile : s.world.file = some file)
    (hcfg : f.cfg = file.1) (hsha : f.sha = file.2) (htimes : Truthful s f.times)
    (h : QuietSince s.world w) :
    kea.Ensures (Timed s) (fun _ => True) (proofByLoad server service planned f)
      (fun r _ => ∀ proof, r = .ok proof → proof.how = .loaded →
        ByLoad server service s proof.sha256) w := by
  unfold proofByLoad
  refine (Prog.wp_bind _ _ _).mpr (Prog.wp_mono ?_ (onRecord_ensures h))
  rintro (e | record) t ⟨hquiet, hfree⟩
  · exact fun _ h => nomatch h
  refine (Prog.wp_bind _ _ _).mpr (Prog.wp_mono ?_ (liveOnceLoaded_ensures hquiet))
  rintro (e | live) u ⟨hquiet', hlive⟩
  · exact fun _ h => nomatch h
  dsimp only
  split
  · next hcarries =>
    intro proof hproof _
    obtain rfl := Except.ok.inj hproof
    cases live with
    | none => simp at hcarries
    | some live =>
      obtain ⟨rfl, hnothing, mtime, loadedAt, hmtime, hloaded, hle⟩ := hlive live rfl
      have hcarried : fileInDaemon (some f.cfg) (some (reported service s.world.running)) service =
          true := by simpa using hcarries
      exact ⟨⟨file, hfile, congrArg some hsha⟩, written_lt s htimes hmtime hloaded hle,
        hfree (congrArg Except.ok hnothing), file, hfile, hcfg ▸ hcarried⟩
  · refine (Prog.wp_bind _ _ _).mpr (Prog.wp_mono ?_ (Prog.wp_forget
      (quiet_ensures differingPlace_quiet hquiet')))
    intro place v _
    cases place with
    | error e => exact fun _ h => nomatch h
    | ok place =>
      dsimp only
      refine (Prog.wp_bind _ _ _).mpr ((Prog.wp_ofExcept _ _).mpr ?_)
      generalize f.why (hostOf server) place planned.isSome record = why
      cases why with
      | error e => exact fun _ h => nomatch h
      | ok why =>
        dsimp only
        have hhow : (f.proof false .nothing place why).how = .nothing := rfl
        exact fun proof hproof => byLoad_of_ne hproof (by rw [hhow]; decide)

/-- A proof says that the file is loaded only by such a proof. -/
theorem fileProof_byLoad :
    kea.Ensures (Timed s) (fun _ => True) (fileProof server service planned capture)
      (fun r _ => ∀ proof, r = .ok proof → proof.how = .loaded →
        ByLoad server service s proof.sha256) s.world := by
  unfold fileProof
  split_ifs with hno
  · exact fun proof hproof => byLoad_of_ne hproof (by rintro ⟨⟩)
  refine (Prog.wp_bind _ _ _).mpr (ask_ensures trivial (fun e => ?_) fun d hd => ⟨trivial, ?_⟩)
  · exact fun _ h => by cases h
  have hquiet : QuietSince s.world (kea.does d s.world (.readConfigProof server service capture)).2 :=
    quiet_does (by trivial) d (.refl s.world)
  have hread : ∀ f, (kea.does d s.world (.readConfigProof server service capture)).1 = .ok (some f) →
      ∃ file, s.world.file = some file ∧ f.cfg = file.1 ∧ f.sha = file.2 ∧ f.times = d.times := by
    intro f hf
    simp only [Kea.does] at hf
    split at hf
    · next cfg sha hfile =>
      split at hf
      · cases hf
        exact ⟨(cfg, sha), hfile, rfl, rfl, rfl⟩
      · cases hf
    · cases hf
  revert hread
  generalize kea.does d s.world (.readConfigProof server service capture) = done at hquiet ⊢
  intro hread
  obtain ⟨answer, t⟩ := done
  rcases answer with e | read
  · exact fun _ h => by cases h
  cases read with
  | none => exact fun proof hproof => byLoad_of_ne hproof (by rintro ⟨⟩)
  | some f =>
    obtain ⟨file, hfile, hcfg, hsha, htimes⟩ := hread f rfl
    have hfileTimes : Truthful s f.times := by
      rw [htimes]
      exact hd
    refine (Prog.wp_bind _ _ _).mpr (Prog.wp_mono ?_ (Prog.wp_forget
      (quiet_ensures renderingOf_quiet hquiet)))
    rintro (e | rendering) u hquiet'
    · exact fun _ h => by cases h
    dsimp only
    split
    · exact fun proof hproof => byLoad_of_ne hproof (by rintro ⟨⟩)
    · split
      · exact fun proof hproof => byLoad_of_ne hproof (by rintro ⟨⟩)
      · exact proofByLoad_ensures hfile hcfg hsha hfileTimes hquiet'

end Proof

end Site

/-- In every history of a daemon that was started on its file, in which no event hides an edit, a file that
`file_proof` says is loaded is one that the daemon has loaded or written, as it is, since it was written. -/
theorem fileProof_loaded [DecidableEq H] (kea : Kea H) (server : Server) (service : Service)
    (file : Cfg × H) (store : Store H) (writtenAt startedAt : ℚ) (hstarted : writtenAt ≤ startedAt)
    (history : List (ℚ × Event H)) (hordered : Site.Ordered startedAt history)
    (hshows : Site.ShowsAll kea server service
      (Site.start kea service file store writtenAt startedAt) history)
    (planned : Option H) (capture : Bool) (fates : ℕ → Fate H) (proof : Proof H) :
    let s := (Site.start kea service file store writtenAt startedAt).run kea service history
    (∀ n, Site.Truthful s (fates n).times) →
      ((fileProof server service planned capture).run kea.host fates s.world).result = .ok proof →
        proof.how = .loaded →
          ∃ file, s.world.file = some file ∧ proof.sha256 = some file.2 ∧
            ∃ x ∈ s.taken, x.1 = file ∧ s.writtenAt ≤ x.2 := by
  intro s htimes hproof hhow
  have hstart : Site.Plain server service (Site.start kea service file store writtenAt startedAt) :=
    .inl ⟨file, rfl, (file, startedAt), List.mem_cons_self, rfl, hstarted⟩
  have hplain : Site.Plain server service s := hstart.run hstarted hordered hshows
  have hby : Site.ByLoad server service s proof.sha256 :=
    (Prog.wp_under_sound Site.fileProof_byLoad fates htimes).1 proof hproof hhow
  obtain ⟨file', hfile', hsha⟩ := hby.file
  have htaken : Site.Taken s := by
    rcases hplain with htaken | hrecord | hlate | hnot
    · exact htaken
    · exact absurd hrecord hby.free
    · exact absurd hby.time (not_lt.mpr hlate)
    · exact absurd hby.carried hnot
  obtain ⟨file'', hfile'', hsince⟩ := htaken
  obtain rfl := Option.some.inj (hfile'.symm.trans hfile'')
  exact ⟨file', hfile', hsha, hsince⟩

/-! ## A `config-set` of another program -/

/-- A server with an SSH host, and no change on record. -/
def remoteKea : Server := { id := some 1, name := "kea1", sshHost := "kea1" }

/-- The file that the daemon was started on. -/
def timerFile : Cfg × ExactDigest := (reported .dhcp4 withTimer, Kea.exact.fileDigest withTimer)

/-- Its edit by hand, which takes a timer away. -/
def editedFile : Cfg × ExactDigest := (reported .dhcp4 shortLease, Kea.exact.fileDigest shortLease)

/-- The edit, and another program that sends what the daemon runs once more. -/
def setElsewhere : List (ℚ × Event ExactDigest) :=
  [(10, .edit editedFile), (20, .set [("Dhcp4", .obj withTimer)])]

/-- Every question is answered, with the times of a host whose clock says 30. -/
def answered (writtenAt committedAt : ℤ) : Fate ExactDigest :=
  { times := some ⟨some writtenAt, some 30, some ⟨some 30, some (30 - committedAt)⟩, ""⟩ }

theorem truthful_answered {s : Site ExactDigest} {writtenAt committedAt : ℤ} (hnow : s.now ≤ 30)
    (hwritten : s.writtenAt = writtenAt) (hcommitted : s.committedAt = committedAt) :
    Site.Truthful s (answered writtenAt committedAt).times := by
  rintro t ht
  obtain rfl := Option.some.inj ht
  refine ⟨30, 30, hnow, le_rfl, fun mtime hm => ?_, fun now hn => ?_, fun daemon reload hd hr => ?_⟩
  · rw [← Option.some.inj hm, hwritten, Int.ceil_intCast]
  · rw [← Option.some.inj hn]
    norm_num
  · obtain rfl := Option.some.inj hd
    rw [← Option.some.inj hr, hcommitted]
    have hcast : (30 : ℚ) - (committedAt : ℚ) = ((30 - committedAt : ℤ) : ℚ) := by push_cast; ring
    rw [hcast, Int.floor_intCast]

/-- The edit is proved as loaded, and was never loaded. -/
theorem fileProof_loaded_elsewhere :
    let s := (Site.start Kea.exact .dhcp4 timerFile .empty 0 0).run Kea.exact .dhcp4 setElsewhere
    Site.Ordered 0 setElsewhere ∧ Site.Truthful s (answered 10 20).times ∧
      (∃ proof, ((fileProof remoteKea .dhcp4 none false).run Kea.exact.host
        (fun _ => answered 10 20) s.world).result = .ok proof ∧ proof.how = .loaded) ∧
      s.world.file = some editedFile ∧ ∀ x ∈ s.taken, x.1 ≠ editedFile := by
  refine ⟨⟨by norm_num, by norm_num, trivial⟩, truthful_answered ?_ ?_ ?_, ⟨_, rfl, rfl⟩, rfl, ?_⟩
  · show (20 : ℚ) ≤ 30
    norm_num
  · show (10 : ℚ) = ((10 : ℤ) : ℚ)
    norm_num
  · show (20 : ℚ) = ((20 : ℤ) : ℚ)
    norm_num
  · intro x hx
    have hfirst : x = (timerFile, 0) := List.mem_singleton.mp hx
    rw [hfirst]
    decide

/-- The edit, and a restart that loads it. -/
def restarted : List (ℚ × Event ExactDigest) := [(10, .edit editedFile), (20, .load)]

/-- After a restart the proof says that the file is loaded, and so it is. -/
theorem fileProof_loaded_restarted :
    let s := (Site.start Kea.exact .dhcp4 timerFile .empty 0 0).run Kea.exact .dhcp4 restarted
    ∃ file, s.world.file = some file ∧ some editedFile.2 = some file.2 ∧
      ∃ x ∈ s.taken, x.1 = file ∧ s.writtenAt ≤ x.2 := by
  have hshows : Site.ShowsAll Kea.exact remoteKea .dhcp4
      (Site.start Kea.exact .dhcp4 timerFile .empty 0 0) restarted := by
    refine ⟨.inl ?_, trivial, trivial⟩
    show (0 : ℚ) + 1 ≤ 10
    norm_num
  have hordered : Site.Ordered 0 restarted := ⟨by norm_num, by norm_num, trivial⟩
  have htimes : Site.Truthful ((Site.start Kea.exact .dhcp4 timerFile .empty 0 0).run Kea.exact .dhcp4
      restarted) (answered 10 20).times := by
    refine truthful_answered ?_ ?_ ?_
    · show (20 : ℚ) ≤ 30
      norm_num
    · show (10 : ℚ) = ((10 : ℤ) : ℚ)
      norm_num
    · show (20 : ℚ) = ((20 : ℤ) : ℚ)
      norm_num
  exact fileProof_loaded Kea.exact remoteKea .dhcp4 timerFile .empty 0 0 le_rfl restarted hordered hshows
    none false (fun _ => answered 10 20) _ (fun _ => htimes) rfl rfl

end JenKea.Api
