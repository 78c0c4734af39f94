import JenKea.Api.Reach

/-!
# Runs that the environment can choose

What the functions below `apply` may do when nothing stands in their way: the gates let the call
pass, the daemon answers, and the file is one that is proved. The runs that break a promise are built
from these. The environment decides under an assumption `A` that does not keep it from reading the
file on the host.
-/

namespace JenKea.Api

variable {H : Type} [DecidableEq H] {kea : Kea H} {server : Server} {service : Service}
  {key : String} {A : Fate H → Prop} {w : World H}

/-- The environment can decide, under `A`, so that `Q` holds at the end. -/
abbrev Kea.May {α : Type} (kea : Kea H) (A : Fate H → Prop) (p : ApiM H α)
    (Q : Except Exc α → World H → Prop) (w : World H) : Prop :=
  p.may (Prog.under kea.host A) Q w

/-- The assumption lets a file be read. -/
abbrev LetsRead (A : Fate H → Prop) : Prop := ∀ d : Fate H, d.fileReadable = true → A d

/-- One call, with a decision that the environment can make. -/
theorem ask_may {o : ApiOp H} {Q : Except Exc o.Result → World H → Prop} (d : Fate H) (hA : A d)
    (hd : d.raises = none) (h : Q (kea.does d w o).1 (kea.does d w o).2) :
    kea.May A (ask o) Q w := by
  refine ⟨⟨d, hA⟩, ?_⟩
  rw [show Prog.under kea.host A o ⟨d, hA⟩ w = kea.host o d w from rfl, Kea.host, hd]
  exact (Prog.may_ofExcept _ _).mpr h

section Questions

variable (hA : LetsRead A)
include hA

theorem get_may (hkey : serviceKey service = some key)
    {Q : Except Exc (Except String (Cfg × H)) → World H → Prop}
    (h : Q (.ok (.ok (reported service w.running, kea.digest (.obj w.running)))) w) :
    kea.May A (get server service) Q w := by
  unfold get
  rw [hkey]
  refine (Prog.may_bind _ _ _).mpr (ask_may {} (hA _ rfl) rfl ?_)
  have hlook : Json.lookup key (reported service w.running) = some (.obj w.running) := by
    rw [← lookup_reported, hkey, Option.getD_some]
  simpa [Kea.does, Kea.after, Kea.reply, Reply.answered, Reply.isOk, Reply.split, replyArgs,
    Kea.replyHash, hlook] using h

theorem hashOf_may (hkey : serviceKey service = some key)
    {Q : Except Exc (Option H) → World H → Prop}
    (h : Q (.ok (some (kea.digest (.obj w.running)))) w) :
    kea.May A (hashOf server service) Q w := by
  unfold hashOf
  rw [if_neg (by simp [hkey])]
  refine (Prog.may_bind _ _ _).mpr (ask_may {} (hA _ rfl) rfl ?_)
  simpa [Kea.does, Kea.after, Kea.reply, Reply.isOk, Reply.digest, Kea.replyHash] using h

end Questions

/-! ## The file -/

/-- The file on the host is the newest rendering of a server with an id; of a server without one,
the daemon carries what it says. -/
structure Provable (server : Server) (service : Service) (w : World H) : Prop where
  file : ∃ f, w.file = some f ∧
    (∀ sid, server.id = some sid →
      ∃ row, w.store.latestRendering sid service = some row ∧ row.sha256 = some f.2) ∧
    (server.id = none → carries (.obj w.running) (sectionOf (some f.1) service) = true)

/-- The times of a daemon that loaded a configuration after the file was written. -/
def loadedSince : Times := { mtime := some 0, now := some 0, daemon := some ⟨none, some 0⟩ }

section File

variable (hA : LetsRead A)
include hA

/-- A file that is carried, on the host of a server without an id, is one the daemon loaded. -/
theorem proofByLoad_may (hkey : serviceKey service = some key) (hid : server.id = none)
    {planned : Option H} {f : Cfg} {sha : H}
    (hcarries : carries (.obj w.running) (sectionOf (some f) service) = true)
    {Q : Except Exc (Proof H) → World H → Prop}
    (h : ∀ proof : Proof H, proof.ok = true → Q (.ok proof) w) :
    kea.May A (proofByLoad server service planned ⟨f, sha, some loadedSince⟩) Q w := by
  have hfile : fileInDaemon (some f) (some (reported service w.running)) service = true := by
    rw [fileInDaemon, sectionOf_reported]
    exact hcarries
  unfold proofByLoad onRecord
  rw [hid]
  refine (Prog.may_bind _ _ _).mpr ((Prog.may_pure _ _).mpr ?_)
  refine (Prog.may_bind _ _ _).mpr ?_
  unfold liveOnceLoaded
  rw [if_pos ⟨rfl, rfl⟩]
  refine (Prog.may_bind _ _ _).mpr (get_may hA hkey ?_)
  simpa [Except.toOption, hfile] using h _ rfl

/-- A reading of the file that captures nothing. -/
theorem readConfigProof_may {file : Cfg} {sha : H} (hfile : w.file = some (file, sha))
    {Q : Except Exc (Option (FileRead H)) → World H → Prop}
    (h : Q (.ok (some ⟨file, sha, some loadedSince⟩)) w) :
    kea.May A (ask (.readConfigProof server service true)) Q w := by
  have hcapture : Fate.captured { times := some loadedSince } w.store server service file =
      w.store := by
    unfold Fate.captured
    split
    · next heq => cases heq
    · rfl
  obtain ⟨running, file', store, log⟩ := w
  obtain rfl : file' = some (file, sha) := hfile
  refine ask_may { times := some loadedSince } (hA _ rfl) rfl ?_
  simpa [Kea.does, hcapture] using h

theorem fileProof_may (hkey : serviceKey service = some key)
    (hw : server.hasSsh = true → Provable server service w) {planned : Option H}
    {Q : Except Exc (Proof H) → World H → Prop}
    (h : ∀ proof : Proof H, proof.ok = true → Q (.ok proof) w) :
    kea.May A (fileProof server service planned true) Q w := by
  unfold fileProof
  split_ifs with hno
  · exact h { ok := true, how := .noFile } rfl
  · have hssh : server.hasSsh = true := by
      by_contra hcon
      exact hno (.inl (by simpa using hcon))
    obtain ⟨⟨file, sha⟩, hfile, hrow, hload⟩ := (hw hssh).file
    refine (Prog.may_bind _ _ _).mpr (readConfigProof_may hA hfile ?_)
    refine (Prog.may_bind _ _ _).mpr ?_
    unfold renderingOf
    cases hid : server.id with
    | none =>
      -- no record and no rendering: the times prove the file
      refine (Prog.may_pure _ _).mpr ?_
      dsimp only
      rw [if_neg (by simp)]
      split_ifs
      · exact h _ rfl
      · exact proofByLoad_may hA hkey hid (hload hid) h
    | some sid =>
      obtain ⟨row, hlatest, hsha⟩ := hrow sid hid
      refine ask_may {} (hA _ rfl) rfl ?_
      simpa [Kea.does, hlatest, hsha] using h _ rfl

theorem askTheFile_may (hkey : serviceKey service = some key)
    (hw : server.hasSsh = true → Provable server service w) {planned : Option H}
    {Q : Except Exc (Except String (Proof H)) → World H → Prop}
    (h : ∀ proof, Q (.ok (.ok proof)) w) :
    kea.May A (askTheFile server service planned false) Q w := by
  refine (Prog.may_bind _ _ _).mpr (fileProof_may hA hkey hw fun proof hok => ?_)
  dsimp only
  rw [if_pos (.inl hok)]
  exact h proof

end File

/-! ## The record -/

/-- No change of a server is pending. -/
def Idle (server : Server) (service : Service) (w : World H) : Prop :=
  ∀ sid, server.id = some sid → w.store.pending sid service = none

omit [DecidableEq H] in
/-- A row in flight is no rendering. -/
theorem Provable.add {e : Entry H} {log : List Mark} (h : Provable server service w)
    (he : e.source = .pending) :
    Provable server service { w with store := w.store.add e, log := log } := by
  obtain ⟨f, hfile, hrow, hload⟩ := h.file
  refine ⟨f, hfile, fun sid hid => ?_, hload⟩
  obtain ⟨row, hlatest, hsha⟩ := hrow sid hid
  refine ⟨row, ?_, hsha⟩
  have hnot : e.isRendering = false := by simp [Entry.isRendering, he]
  have hsame : (w.store.add e).latestRendering sid service =
      w.store.latestRendering sid service := by
    simp [Store.latestRendering, Store.newest, Store.add, hnot]
  exact hsame.trans hlatest

section Record

variable (hA : LetsRead A)
include hA

theorem recordUnreadable_may {Q : Except Exc String → World H → Prop} (h : Q (.ok "") w) :
    kea.May A (recordUnreadable server service) Q w := by
  unfold recordUnreadable
  split
  · exact h
  · split_ifs
    · exact h
    · refine (Prog.may_handle _ _ _).mpr ((Prog.may_bind _ _ _).mpr
        (ask_may {} (hA _ rfl) rfl ?_))
      simpa [Kea.does] using h

theorem blockedBy_may [ToString H] {c : Write H} (hw : Idle c.server c.service w)
    {Q : Except Exc (Option (ApiResult H)) → World H → Prop} (h : Q (.ok none) w) :
    kea.May A (blockedBy c) Q w := by
  unfold blockedBy
  split_ifs
  · refine (Prog.may_bind _ _ _).mpr ?_
    unfold stalePending
    cases hid : c.server.id with
    | none => exact h
    | some sid =>
      refine (Prog.may_bind _ _ _).mpr (ask_may {} (hA _ rfl) rfl ?_)
      simpa [Kea.does, hw sid hid] using h
  · refine (Prog.may_bind _ _ _).mpr ?_
    unfold pendingBlock
    cases hid : c.server.id with
    | none => simpa using h
    | some sid =>
      refine (Prog.may_handle _ _ _).mpr ?_
      unfold pendingBlock.block
      refine (Prog.may_bind _ _ _).mpr (ask_may {} (hA _ rfl) rfl ?_)
      simpa [Kea.does, hw sid hid] using h

theorem plannedOf_may {c : Write H} (hkey : serviceKey c.service = some key)
    (hw : c.server.hasSsh = true → Provable c.server c.service w)
    {Q : Except Exc (Except String (Option H)) → World H → Prop}
    (h : ∀ planned, Q (.ok (.ok planned)) w) : kea.May A (plannedOf c) Q w := by
  unfold plannedOf
  split_ifs
  · refine (Prog.may_bind _ _ _).mpr (askTheFile_may hA hkey hw fun proof => ?_)
    exact h proof.sha256
  · exact h c.plannedSha

theorem rowShaOf_may [ToString H] {c : Write H} {planned : Option H}
    {Q : Except Exc (Option H) → World H → Prop} (h : ∀ sha, Q (.ok sha) w) :
    kea.May A (rowShaOf c planned) Q w := by
  refine (Prog.may_bind _ _ _).mpr ?_
  unfold rowShaOf.fileNow
  split
  · exact h _
  · split
    · exact h _
    · split
      · refine (Prog.may_bind _ _ _).mpr (ask_may {} (hA _ rfl) rfl ?_)
        exact h _
      · exact h _

/-- The row of a call, where no change of its server is pending. -/
theorem record_may {sid : ℤ} {e : Entry H} (hid : server.id = some sid)
    (he : e.source = .pending ∧ e.serverId = sid ∧ e.service = service)
    (hidle : Idle server service w) {Q : Except Exc (Option ℕ) → World H → Prop}
    (h : ∀ e' : Entry H, e'.source = .pending → Q (.ok (some w.store.nextId))
      { w with store := w.store.add e', log := w.log ++ [.recorded w.store.nextId] }) :
    kea.May A (ask (.record e)) Q w := by
  refine ask_may { keep := none } (hA _ rfl) rfl ?_
  have hnone : w.store.pending e.serverId e.service = none := by
    rw [he.2.1, he.2.2]
    exact hidle sid hid
  simpa [Kea.does, Fate.record, Store.insert, hnone, Fate.prune, recordMark, he.1] using
    h { e with summary := String.ofList (e.summary.toList.take 255), createdAt := none } he.1

end Record

/-! ## Up to the set -/

section Call

variable [ToString H] {c : Write H} {expect : H} {planned rowSha : Option H}
  {Q : Except Exc (ApiResult H) → World H → Prop} (hA : LetsRead A)
include hA

/-- The record is written, and the daemon still runs what the change was built from. -/
theorem applyRecorded_may (hkey : serviceKey c.service = some key) {before : Cfg}
    (hexpect : kea.digest (.obj w.running) = expect) (hidle : Idle c.server c.service w)
    (hnone : c.server.id = none → kea.May A (applySet c before expect planned none) Q w)
    (hsome : ∀ sid, c.server.id = some sid → ∀ e : Entry H, e.source = .pending →
      kea.May A (applySet c before expect planned (some w.store.nextId)) Q
        { w with store := w.store.add e, log := w.log ++ [.recorded w.store.nextId] }) :
    kea.May A (applyRecorded c before expect planned rowSha) Q w := by
  have hcompared : ∀ pendingId (t : World H), t.running = w.running →
      kea.May A (applySet c before expect planned pendingId) Q t →
      kea.May A (applyCompared c before expect planned pendingId) Q t := by
    intro pendingId t hrun h
    refine (Prog.may_bind _ _ _).mpr (hashOf_may hA hkey ?_)
    dsimp only
    rw [if_neg (by rw [hrun]; exact not_not.mpr hexpect)]
    exact h
  unfold applyRecorded
  split
  · next hid => exact hcompared none w rfl (hnone hid)
  · next sid hid =>
    refine (Prog.may_bind _ _ _).mpr ((Prog.may_handle _ _ _).mpr
      (record_may hA hid ⟨rfl, rfl, rfl⟩ hidle fun e he => ?_))
    exact hcompared _ _ rfl (hsome sid hid e he)

/-- Nothing stands in the way of a call that sends, but an earlier change and the file. -/
theorem apply_may (g : Sends kea c w.running)
    (h : kea.May A (blockedBy c) (fun r t => r = .ok none ∧
      kea.May A (plannedOf c) (fun r u => ∃ planned, r = .ok (.ok planned) ∧
        ∀ rowSha, kea.May A (applyRecorded c (builtFrom c w.running)
          (kea.digest (.obj w.running)) planned rowSha) Q u) t) w) :
    kea.May A (apply c) Q w := by
  obtain ⟨key, hkey⟩ := Option.isSome_iff_exists.mp g.served
  have hover : kea.May A (applyOver c (builtFrom c w.running) (kea.digest (.obj w.running))) Q w := by
    unfold applyOver
    rw [g.guard]
    refine (Prog.may_bind _ _ _).mpr ((Prog.may_ofExcept _ _).mpr ?_)
    dsimp only
    rw [if_neg (not_not.mpr rfl)]
    refine (Prog.may_bind _ _ _).mpr (recordUnreadable_may hA ?_)
    dsimp only
    rw [if_neg (not_not.mpr rfl)]
    refine (Prog.may_bind _ _ _).mpr (Prog.may_mono ?_ h)
    rintro _ t ⟨rfl, hplanned⟩
    refine (Prog.may_bind _ _ _).mpr (Prog.may_mono ?_ hplanned)
    rintro _ u ⟨planned, rfl, hrecorded⟩
    exact (Prog.may_bind _ _ _).mpr (rowShaOf_may hA hrecorded)
  have hwindow : ∀ Q : Except Exc String → World H → Prop, Q (.ok "") w →
      kea.May A (windowOf c) Q w := by
    intro Q hQ
    unfold windowOf
    split_ifs
    · exact ask_may {} (hA _ rfl) rfl hQ
    · exact hQ
  have hrefresh : ∀ Q : Except Exc Unit → World H → Prop, Q (.ok ()) w →
      kea.May A (refreshFacts c) Q w := by
    intro Q hQ
    unfold refreshFacts
    split_ifs
    · exact hQ
    · exact ask_may {} (hA _ rfl) rfl hQ
  unfold apply
  rw [if_neg (by simp [hkey])]
  refine (Prog.may_bind _ _ _).mpr (ask_may {} (hA _ rfl) rfl ?_)
  simp only [Kea.does]
  rw [if_neg (not_not.mpr rfl)]
  refine (Prog.may_bind _ _ _).mpr (hwindow _ ?_)
  dsimp only
  rw [if_neg (not_not.mpr rfl)]
  refine (Prog.may_bind _ _ _).mpr (hrefresh _ ?_)
  refine (Prog.may_bind _ _ _).mpr (ask_may {} (hA _ rfl) rfl ?_)
  simp only [Kea.does]
  rw [if_neg (not_not.mpr rfl)]
  refine (Prog.may_bind _ _ _).mpr ?_
  unfold beforeOf
  cases hb : c.beforeCfg with
  | some b =>
    obtain ⟨e, he⟩ := Option.isSome_iff_exists.mp (g.given (by rw [hb]; rfl))
    have hexpect : e = kea.digest (.obj w.running) := by simpa [he] using g.expect
    rw [builtFrom_eq hb] at hover
    rw [he, hexpect]
    exact hover
  | none =>
    refine (Prog.may_bind _ _ _).mpr (get_may hA hkey ?_)
    have hbuilt : builtFrom c w.running = reported c.service w.running := by
      rw [builtFrom, hb, Option.getD_none]
    have hexpect : c.expectHash.or (some (kea.digest (.obj w.running))) =
        some (kea.digest (.obj w.running)) := by
      have := g.expect
      cases he : c.expectHash with
      | none => rfl
      | some e => simpa [he] using this
    rw [hbuilt] at hover
    simp only [Except.map, hexpect]
    exact hover

end Call

end JenKea.Api
