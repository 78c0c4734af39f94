import JenKea.Api.Steps

/-!
# Up to the record

The steps of `apply` before its pending record end the call with nothing sent, or reach the record.
`apply_ensures` is the rule for both: it says once what these steps leave as it was and what they
establish, and the properties of a call are proved from the record on.
-/

namespace JenKea.Api

variable {H : Type} {kea : Kea H} {c : Write H} {server : Server} {service : Service}
  {running : Cfg} {expect : H}

/-- The configuration that a change is built from: the caller's, or what the daemon runs. -/
def builtFrom (c : Write H) (running : Cfg) : Cfg := c.beforeCfg.getD (reported c.service running)

/-- What the steps before the record establish of a daemon that runs `running`. -/
structure Reached (kea : Kea H) (c : Write H) (running : Cfg) (expect : H) : Prop where
  served : (serviceKey c.service).isSome
  /-- A configuration that the caller read comes with a digest. -/
  given : c.beforeCfg.isSome → c.expectHash.isSome
  expect : c.expectHash.getD (kea.digest (.obj running)) = expect
  guard : apiOnlyGuard c.service (some (builtFrom c running)) c.cfg = .ok ""

/-- The call gets to its set on a daemon that runs `running`, when nothing stands in its way. -/
def Sends (kea : Kea H) (c : Write H) (running : Cfg) : Prop :=
  Reached kea c running (kea.digest (.obj running))

/-- The compare of the digests, after the record, establishes the rest. -/
theorem Reached.sends (h : Reached kea c running expect)
    (hexpect : kea.digest (.obj running) = expect) : Sends kea c running := by
  rw [Sends, hexpect]
  exact h

/-- What is read now is what the daemon runs. -/
theorem sectionOf_builtFrom (h : c.beforeCfg = none) :
    sectionOf (some (builtFrom c running)) c.service = .obj running := by
  rw [builtFrom, h, Option.getD_none, sectionOf_reported]

theorem builtFrom_eq {b : Cfg} (h : c.beforeCfg = some b) : builtFrom c running = b := by
  rw [builtFrom, h, Option.getD_some]

/-- A call before whose record an earlier change can be settled, which writes the file. -/
structure CanSettle (c : Write H) (running : Cfg) : Prop where
  id : c.server.id.isSome
  purpose : c.purpose ≠ .restore
  running : running ≠ []

/-- The digest of the file that a call rests on: the one of the caller's Plan, or of the file on the
host. -/
def RestsOn (c : Write H) (file : Option (Cfg × H)) (planned : Option H) : Prop :=
  (planned = c.plannedSha ∧
      (c.plannedSha = none → c.purpose = .rollback ∨ c.server.hasSsh = false)) ∨
    ∃ f, file = some f ∧ planned = some f.2

variable [DecidableEq H] {A : Fate H → Prop} {J : World H → Prop} {w w₀ : World H}

/-! ## The file that a call rests on -/

/-- A proof is about the file on the host. -/
theorem fileProof_ensures {planned : Option H} {capture : Bool} :
    kea.Ensures A (QuietSince w) (fileProof server service planned capture)
      (fun r t => QuietSince w t ∧ ∀ proof, r = .ok proof → proof.ok = true → server.hasSsh = true →
        (serviceKey service).isSome → ∃ f, w.file = some f ∧ proof.sha256 = some f.2) w := by
  unfold fileProof
  split_ifs with hno
  · refine ⟨.refl w, fun proof _ _ hssh hserved => absurd hno ?_⟩
    simp [hssh, Option.isSome_iff_ne_none.mp hserved]
  have hread : kea.Ensures A (QuietSince w) (ask (.readConfigProof server service capture))
      (fun r t => QuietSince w t ∧ ∀ f, r = .ok (some f) → ∃ cfg, w.file = some (cfg, f.sha)) w := by
    refine ask_ensures (.refl w) (fun e => ⟨.refl w, (by rintro _ ⟨⟩)⟩) fun d _ => ?_
    have hquiet : QuietSince w (kea.does d w (.readConfigProof server service capture)).2 :=
      quiet_does (by trivial) d (.refl w)
    refine ⟨hquiet, hquiet, fun f hf => ?_⟩
    simp only [Kea.does] at hf
    split at hf
    · next cfg sha hfile =>
      split at hf
      · cases hf
        exact ⟨cfg, hfile⟩
      · cases hf
    · cases hf
  refine (Prog.wp_bind _ _ _).mpr (Prog.wp_mono ?_ hread)
  rintro (e | read) t ⟨hquiet, hfile⟩
  · exact ⟨hquiet, fun _ h => by cases h⟩
  · cases read with
    | none =>
      -- a file that is not read is not proved
      refine ⟨hquiet, fun proof h hok => ?_⟩
      rw [← Except.ok.inj h] at hok
      cases hok
    | some f =>
      obtain ⟨cfg, hfile⟩ := hfile f rfl
      refine Prog.wp_mono (fun r t ht => ⟨ht.1, fun proof h _ _ _ => ?_⟩)
        (within_ensures proofOf_quiet (fun _ d _ ho => quiet_does ho d) hquiet)
      exact ⟨(cfg, f.sha), hfile, ht.2 proof h⟩

theorem plannedOf_ensures (hserved : (serviceKey c.service).isSome) :
    kea.Ensures A (QuietSince w) (plannedOf c) (fun r t => QuietSince w t ∧
      ∀ planned, r = .ok (.ok planned) → RestsOn c t.file planned) w := by
  unfold plannedOf
  split_ifs with hasks
  · have hproof : kea.Ensures A (QuietSince w) (askTheFile c.server c.service none false)
        (fun r t => QuietSince w t ∧ ∀ proof, r = .ok (.ok proof) →
          ∃ f, w.file = some f ∧ proof.sha256 = some f.2) w := by
      refine (Prog.wp_bind _ _ _).mpr (Prog.wp_mono ?_ fileProof_ensures)
      rintro (e | proof) t ⟨hq, hfile⟩
      · exact ⟨hq, fun _ h => by cases h⟩
      · dsimp only
        split
        · next hok =>
          refine ⟨hq, fun proof' h' => ?_⟩
          rw [← Except.ok.inj (Except.ok.inj h')]
          exact hfile proof rfl (by simpa using hok) hasks.2.2 hserved
        · exact ⟨hq, fun _ h => by cases h⟩
    refine (Prog.wp_bind _ _ _).mpr (Prog.wp_mono ?_ hproof)
    rintro (e | why | proof) t ⟨hq, hfile⟩
    · exact ⟨hq, fun _ h => by cases h⟩
    · exact ⟨hq, fun _ h => by cases h⟩
    · refine ⟨hq, fun planned hplanned => .inr ?_⟩
      rw [← Except.ok.inj (Except.ok.inj hplanned), hq.file]
      exact hfile proof rfl
  · refine ⟨.refl w, fun planned hplanned => .inl ⟨(Except.ok.inj (Except.ok.inj hplanned)).symm,
      fun hnone => ?_⟩⟩
    by_contra hcon
    rw [not_or] at hcon
    exact hasks ⟨hnone, hcon.1, by simpa using hcon.2⟩

/-! ## An earlier change -/

/-- The operation sends no command but a question. -/
def ApiOp.asks : ApiOp H → Prop
  | .cmd _ _ (.configSet _) | .cmd _ _ .configWrite => False
  | .record e => e.source ≠ .pending
  | _ => True

theorem asks_does {o : ApiOp H} (ho : o.asks) (d : Fate H) :
    (kea.does d w o).2.log = w.log := by
  cases o with
  | cmd server service command => cases command <;> first | exact ho.elim | rfl
  | readConfigProof server service capture =>
    simp only [Kea.does]
    split
    · split
      · split <;> rfl
      · rfl
    · rfl
  | record e =>
    simp only [Kea.does, recordMark]
    split
    · rw [if_neg ho, List.append_nil]
    · exact List.append_nil _
  | discardPending => simp only [Kea.does]; split <;> rfl
  | _ => rfl

variable [ToString H]

/-- Nothing is carried by a daemon that runs an empty section. -/
theorem not_carries_empty {f : String × Json} {fs : Cfg} :
    carries (.obj []) (.obj (f :: fs)) = false := by
  simp [carries, walk, walkFields, Json.lookup]

/-- An earlier change is not settled by a write on a daemon that runs an empty section. -/
theorem reconcilePending_asks {digest : H} {discard : Bool} :
    (reconcilePending server service (reported service []) digest discard).Within ApiOp.asks
      fun _ => True := by
  have hrow : ∀ row : Row H, (reconcileRow server service row (reported service []) digest
      discard).Within ApiOp.asks fun _ => True := by
    intro row
    unfold reconcileRow
    split
    · unfold reconcileDamaged
      split_ifs <;> exact within_ask_bind trivial fun done => trivial
    · next candidate hcandidate =>
      have hnot : carries (sectionOf (some (reported service [])) service)
          (sectionOf (some candidate) service) = false := by
        rw [sectionOf_reported]
        unfold pendingCandidate at hcandidate
        split at hcandidate
        · split at hcandidate
          · next hsection =>
            rw [← Option.some.inj hcandidate, hsection]
            exact not_carries_empty
          · cases hcandidate
        · cases hcandidate
      refine within_bind ?_ fun age => ?_
      · unfold rowAge
        split
        · trivial
        · exact within_ask_bind trivial fun now => trivial
      · split_ifs with hage hunsent
        · trivial
        · exact within_ask_bind trivial fun done => trivial
        · simp_all
        · trivial
  unfold reconcilePending
  split
  · trivial
  · split_ifs
    · trivial
    · refine within_ask_bind trivial fun row => ?_
      split
      · trivial
      · exact hrow _

omit [DecidableEq H] [ToString H] in
theorem get_asks : (get server service : ApiM H _).Within ApiOp.asks fun _ => True := by
  unfold get
  split
  · trivial
  · refine within_ask_bind trivial fun reply => ?_
    split_ifs
    · trivial
    · trivial
    · split <;> trivial

omit [ToString H] in
theorem stalePending_asks :
    (stalePending server service : ApiM H _).Within ApiOp.asks fun _ => True := by
  have hsupersede : ∀ row : Row H, (supersede row).Within ApiOp.asks fun _ => True :=
    fun row => within_ask_bind trivial fun done => trivial
  unfold stalePending
  split
  · trivial
  · refine within_ask_bind trivial fun row => ?_
    split
    · trivial
    · split
      · exact hsupersede _
      · refine within_bind get_asks fun got => ?_
        split
        · trivial
        · refine within_bind ?_ fun age => ?_
          · unfold rowAge
            split
            · trivial
            · exact within_ask_bind trivial fun now => trivial
          · split
            · trivial
            · split
              · trivial
              · exact hsupersede _

omit [ToString H] in
/-- A program that only asks writes nothing. -/
theorem asks_ensures {α : Type} {p : ApiM H α} (w₀ : World H) (hp : p.Within ApiOp.asks fun _ => True)
    (h : w.log = w₀.log) :
    kea.Ensures A (fun _ => True) p (fun _ t => t.log = w₀.log) w :=
  Prog.wp_forget (Prog.wp_mono (fun _ _ ht => ht.1) (within_ensures hp
    (K := fun t => t.log = w₀.log) (fun _ d _ ho ht => (asks_does ho d).trans ht) h))

/-- An earlier change is settled by a write only in a call that can settle. -/
theorem blockedBy_writes :
    kea.Ensures A (fun _ => True) (blockedBy c)
      (fun _ t => t.log = w.log ∨ CanSettle c w.running) w := by
  by_cases hcan : CanSettle c w.running
  · exact Prog.wp_mono (fun _ _ _ => .inr hcan)
      (Prog.wp_of_keeps (J := fun _ => True) (fun _ _ _ _ => trivial) _ trivial)
  refine Prog.wp_mono (fun _ _ h => .inl h) ?_
  unfold blockedBy
  split_ifs with hrestore
  · refine asks_ensures _ (within_bind stalePending_asks fun earlier => ?_) rfl
    split <;> trivial
  · refine (Prog.wp_bind _ _ _).mpr ?_
    suffices hblock : kea.Ensures A (fun _ => True) (pendingBlock c.server c.service)
        (fun _ t => t.log = w.log) w from
      Prog.wp_mono (fun r t ht => by cases r <;> exact ht) hblock
    unfold pendingBlock
    cases hid : c.server.id with
    | none => rfl
    | some sid =>
      have hempty : w.running = [] := by
        by_contra hne
        exact hcan ⟨by simp [hid], hrestore, hne⟩
      refine (Prog.wp_handle _ _ _).mpr ((Prog.wp_bind _ _ _).mpr
        (ask_ensures trivial (fun e => ?_) fun d _ => ⟨trivial, ?_⟩))
      · cases e <;> rfl
      · simp only [Kea.does]
        split
        · split
          · rfl
          · split_ifs
            · rfl
            · refine (Prog.wp_bind _ _ _).mpr (get_ensures trivial (fun e => ?_) (fun why => rfl) ?_)
              · cases e <;> rfl
              · rw [hempty]
                refine Prog.wp_mono (fun r t ht => ?_) (asks_ensures w
                  (within_bind reconcilePending_asks fun done =>
                    within_ask_bind trivial fun left => ?_) rfl)
                · cases r with
                  | ok a => exact ht
                  | error e => cases e <;> exact ht
                · split_ifs <;> trivial
        · next e _ => cases e <;> rfl

/-- A call that an earlier change ends is not ok. -/
theorem blockedBy_neverOk :
    (blockedBy c).Within (fun _ => True) fun b => ∀ r, b = some r → r.ok = false := by
  have hstop : ∀ x : ApiResult H, x.ok = false → ∀ r, some x = some r → r.ok = false :=
    fun x hx r hr => Option.some.inj hr ▸ hx
  unfold blockedBy
  split_ifs
  · refine within_bind (Prog.within_true _) fun earlier => ?_
    cases earlier with
    | live => exact hstop _ rfl
    | unprovable => exact hstop _ rfl
    | unknown => exact hstop _ rfl
    | nothing => exact nofun
    | stale => exact nofun
  · refine within_bind (Prog.within_true _) fun blocked => ?_
    refine (Prog.within_pure _).mpr ?_
    split_ifs
    · exact nofun
    · exact hstop _ rfl

/-! ## The rule -/

/-- What ends a call: an exception, or a result that is not ok. -/
def Stops (r : Except Exc (ApiResult H)) : Prop := ∀ x, r = .ok x → x.ok = false

section Rule

variable {Q : Except Exc (ApiResult H) → World H → Prop}

/-- What is known when the record is reached. -/
structure AtRecord (kea : Kea H) (c : Write H) (w₀ : World H) (expect : H) (planned : Option H)
    (w : World H) : Prop where
  reached : Reached kea c w₀.running expect
  settled : SettledSince kea c.service w₀ w
  /-- The file was written only to settle an earlier change. -/
  written : w.log = w₀.log ∨ CanSettle c w₀.running
  restsOn : RestsOn c w.file planned

/-- The rule of the steps after the guard of the API path. -/
theorem applyOver_ensures (hreached : apiOnlyGuard c.service (some (builtFrom c w₀.running)) c.cfg =
      .ok "" → Reached kea c w₀.running expect)
    (hserved : (serviceKey c.service).isSome)
    (hJ : ∀ t, SettledSince kea c.service w₀ t → J t)
    (hstop : ∀ r t, SettledSince kea c.service w₀ t → Stops r → Q r t)
    (hrecord : ∀ planned rowSha t, AtRecord kea c w₀ expect planned t →
      kea.Ensures A J (applyRecorded c (builtFrom c w₀.running) expect planned rowSha) Q t)
    (h : QuietSince w₀ w) :
    kea.Ensures A J (applyOver c (builtFrom c w₀.running) expect) Q w := by
  have hends : ∀ (x : ApiResult H) t, x.ok = false → SettledSince kea c.service w₀ t →
      Q (.ok x) t := fun x t hx ht => hstop _ t ht fun y hy => Except.ok.inj hy ▸ hx
  have herr : ∀ e t, SettledSince kea c.service w₀ t → Q (.error e) t :=
    fun e t ht => hstop _ t ht nofun
  refine (Prog.wp_bind _ _ _).mpr ((Prog.wp_ofExcept _ _).mpr ?_)
  split
  · next guarded hguard =>
    split_ifs with hempty
    · exact hends _ w rfl h.settled
    rw [not_not] at hempty
    have g := hreached (hempty ▸ hguard)
    refine quiet_then recordUnreadable_quiet h (fun t ht => hJ t ht.settled)
      (fun e t ht => herr e t ht.settled) fun unreadable w₁ h => ?_
    split_ifs
    · exact hends _ w₁ rfl h.settled
    -- the one step before the record that can write the file
    have hblocked : kea.Ensures A (SettledSince kea c.service w₀) (blockedBy c)
        (fun r t => (SettledSince kea c.service w₀ t ∧ ∀ b, r = .ok b →
            True ∧ ∀ x, b = some x → x.ok = false) ∧
          (t.log = w₁.log ∨ CanSettle c w₁.running)) w₁ :=
      Prog.wp_weaken (fun _ ht => ht.1) (Prog.wp_and
        (within_ensures (blockedBy_settles.and blockedBy_neverOk)
          (fun _ d _ ho ht => settles_does ho d ht) h.settled) blockedBy_writes)
    refine (Prog.wp_bind _ _ _).mpr (Prog.wp_weaken hJ (Prog.wp_mono ?_ hblocked))
    rintro (e | blocked) w₂ ⟨⟨h₂, hnot⟩, hlog⟩
    · exact herr e w₂ h₂
    rw [h.log, h.running] at hlog
    cases blocked with
    | some x => exact hends x w₂ ((hnot _ rfl).2 x rfl) h₂
    | none =>
      have hplans : kea.Ensures A (QuietSince w₂) (plannedOf c) (fun r t => QuietSince w₂ t ∧
          ∀ planned, r = .ok (.ok planned) → RestsOn c t.file planned) w₂ :=
        plannedOf_ensures hserved
      have hplanned := Prog.wp_weaken (fun t ht => hJ t (h₂.trans (QuietSince.settled ht))) hplans
      refine (Prog.wp_bind _ _ _).mpr (Prog.wp_mono ?_ hplanned)
      rintro (e | why | planned) w₃ ⟨hq, hrests⟩
      · exact herr e w₃ (h₂.trans hq.settled)
      · exact hends _ w₃ rfl (h₂.trans hq.settled)
      refine quiet_then rowShaOf_quiet hq (fun t ht => hJ t (h₂.trans ht.settled))
        (fun e t ht => herr e t (h₂.trans ht.settled)) fun rowSha w₄ h₄ => ?_
      refine hrecord planned rowSha w₄ ⟨g, h₂.trans h₄.settled, ?_, ?_⟩
      · rwa [h₄.log]
      · rw [h₄.file, ← hq.file]
        exact hrests planned rfl
  · exact herr _ w h.settled

/-- The rule of `apply`: its steps before the record only settle, and end the call or reach the
record. -/
theorem apply_ensures (hJ : ∀ t, SettledSince kea c.service w t → J t)
    (hstop : ∀ r t, SettledSince kea c.service w t → Stops r → Q r t)
    (hrecord : ∀ expect planned rowSha t, AtRecord kea c w expect planned t →
      kea.Ensures A J (applyRecorded c (builtFrom c w.running) expect planned rowSha) Q t) :
    kea.Ensures A J (apply c) Q w := by
  have hends : ∀ (x : ApiResult H) t, x.ok = false → QuietSince w t → Q (.ok x) t :=
    fun x t hx ht => hstop _ t ht.settled fun y hy => Except.ok.inj hy ▸ hx
  have herr : ∀ e t, QuietSince w t → Q (.error e) t := fun e t ht => hstop _ t ht.settled nofun
  have hinv : ∀ t, QuietSince w t → J t := fun t ht => hJ t ht.settled
  unfold apply
  split_ifs with hserved
  · exact hends _ w rfl (.refl w)
  have hserved : (serviceKey c.service).isSome := Option.isSome_iff_ne_none.mpr hserved
  refine quiet_then (within_ask trivial) (.refl w) hinv herr fun refusal w' h => ?_
  split_ifs
  · exact hends _ w' rfl h
  refine quiet_then windowOf_quiet h hinv herr fun window w' h => ?_
  split_ifs
  · exact hends _ w' rfl h
  refine quiet_then refreshFacts_quiet h hinv herr fun _ w' h => ?_
  refine quiet_then (within_ask trivial) h hinv herr fun gated w' h => ?_
  split_ifs
  · exact hends _ w' rfl h
  have hover : ∀ before expect, before = builtFrom c w.running →
      (c.beforeCfg.isSome → c.expectHash.isSome) →
      c.expectHash.getD (kea.digest (.obj w.running)) = expect →
      kea.Ensures A J (applyOver c before expect) Q w' := by
    rintro before expect rfl hgiven hexpect
    exact applyOver_ensures (fun hguard => ⟨hserved, hgiven, hexpect, hguard⟩) hserved hJ hstop
      (hrecord expect) h
  refine (Prog.wp_bind _ _ _).mpr ?_
  unfold beforeOf
  split
  · next b hb =>
    cases he : c.expectHash with
    | none => exact hends _ w' rfl h
    | some expect =>
      exact hover b expect (builtFrom_eq hb).symm (by simp [he]) (by rw [he]; rfl)
  · next hb =>
    -- the configuration that is read now is what the daemon runs
    refine (Prog.wp_bind _ _ _).mpr (get_ensures (hinv w' h) (fun e => herr e w' h)
      (fun why => hends _ w' rfl h) ?_)
    have hread : reported c.service w'.running = builtFrom c w.running := by
      rw [builtFrom, hb, h.running, Option.getD_none]
    rw [h.running] at hread ⊢
    cases he : c.expectHash with
    | none => exact hover _ _ hread (by simp [hb]) (by rw [he]; rfl)
    | some expect => exact hover _ _ hread (by simp [hb]) (by rw [he]; rfl)

end Rule

end JenKea.Api
