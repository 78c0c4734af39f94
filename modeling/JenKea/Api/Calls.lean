import JenKea.Api.Daemon

/-!
# What the functions call

Most of the functions below `apply` never send a configuration. `ApiOp.settles` names the operations
that send none and record no change, and `ApiOp.quiet` those among them that leave the file and every
pending row alone. This file says which functions call only such operations.
-/

namespace JenKea.Api

variable {H : Type}

/-- The operation sends no configuration, writes no file but that of `service`, and makes no row
pending. -/
def ApiOp.settles (service : Service) : ApiOp H → Prop
  | .cmd _ _ (.configSet _) => False
  | .cmd _ service' .configWrite => service' = service
  | .record e => e.source ≠ .pending
  | .finish _ source _ _ => source ≠ .pending
  | _ => True

/-- The operation settles, and touches neither the file nor a pending row. -/
def ApiOp.quiet : ApiOp H → Prop
  | .cmd _ _ (.configSet _) | .cmd _ _ .configWrite => False
  | .record e => e.source = .rendering
  | .finish .. | .markDamaged .. | .discard .. | .discardPending .. => False
  | _ => True

theorem ApiOp.quiet.settles {service : Service} {o : ApiOp H} (h : o.quiet) :
    o.settles service := by
  cases o with
  | cmd server service command =>
    cases command with
    | configWrite => exact h.elim
    | _ => exact h
  | record e => rw [ApiOp.settles, show e.source = .rendering from h]; decide
  | finish => exact h.elim
  | _ => trivial

/-- The program calls only quiet operations. -/
abbrev Quiet {α : Type} (p : ApiM H α) : Prop := p.Within ApiOp.quiet fun _ => True

/-- The program calls only operations that settle. -/
abbrev Settles {α : Type} (service : Service) (p : ApiM H α) : Prop :=
  p.Within (ApiOp.settles service) fun _ => True

theorem Quiet.settles {α : Type} {service : Service} {p : ApiM H α} (h : Quiet p) :
    Settles service p :=
  Prog.Within.mono h (fun _ ho => ho.settles) fun _ _ => trivial

section Rules

variable {α : Type} {A : ApiOp H → Prop} {P : α → Prop}

theorem within_ask {o : ApiOp H} (h : A o) : (ask o).Within A fun _ => True :=
  ⟨h, fun a => by cases a <;> simp [Prog.ofExcept]⟩

theorem within_ask_bind {o : ApiOp H} {f : o.Result → ApiM H α} (h : A o)
    (hf : ∀ a, (f a).Within A P) : (ask o >>= f).Within A P :=
  (within_ask h).bind fun a _ => hf a

theorem within_bind {β : Type} {p : ApiM H β} {f : β → ApiM H α}
    (h : p.Within A fun _ => True) (hf : ∀ a, (f a).Within A P) : (p >>= f).Within A P :=
  h.bind fun a _ => hf a

theorem unlessUnreadable_within {p : ApiM H α} {a : α} (h : p.Within A P) (ha : P a) :
    (unlessUnreadable p a).Within A P :=
  h.handle fun e => by cases e <;> simp [ha]

end Rules

/-! ## The quiet functions -/

section Quiet

variable {server : Server} {service : Service}

theorem get_quiet : Quiet (get server service : ApiM H _) := by
  unfold get
  split
  · trivial
  · refine within_ask_bind trivial fun reply => ?_
    split_ifs
    · trivial
    · trivial
    · split <;> trivial

theorem hashOf_quiet : Quiet (hashOf server service : ApiM H _) := by
  unfold hashOf
  split_ifs
  · trivial
  · exact within_ask_bind trivial fun reply => trivial

theorem renderingOf_quiet : Quiet (renderingOf server service : ApiM H _) := by
  unfold renderingOf
  split
  · exact within_ask trivial
  · trivial

theorem onRecord_quiet : Quiet (onRecord server service : ApiM H _) := by
  unfold onRecord
  split
  · trivial
  · refine Prog.Within.handle (within_ask_bind trivial fun row => trivial) fun e => ?_
    cases e <;> trivial

theorem liveOnceLoaded_quiet {f : FileRead H} {r : OnRecord} :
    Quiet (liveOnceLoaded server service f r) := by
  unfold liveOnceLoaded
  split_ifs
  · exact within_bind get_quiet fun got => trivial
  · trivial

theorem differingPlace_quiet {f : FileRead H} {live : Option Cfg} :
    Quiet (differingPlace server service f live) := by
  unfold differingPlace
  refine Prog.Within.handle (within_bind ?_ fun live => ?_) fun e => trivial
  · unfold differingPlace.readLive
    split
    · trivial
    · exact within_bind get_quiet fun got => trivial
  · split
    · exact within_ask trivial
    · trivial

theorem rowAge_quiet {row : Row H} : Quiet (rowAge row) := by
  unfold rowAge
  split
  · trivial
  · exact within_ask_bind trivial fun now => trivial

theorem recordUnreadable_quiet : Quiet (recordUnreadable server service : ApiM H _) := by
  unfold recordUnreadable
  split
  · trivial
  · split_ifs
    · trivial
    · exact unlessUnreadable_within (within_ask_bind trivial fun row => trivial) trivial

theorem settlementWaits_quiet {cfg : Cfg} :
    Quiet (settlementWaits server service cfg : ApiM H _) := by
  refine within_ask_bind trivial fun refusal => ?_
  split_ifs
  · trivial
  · exact within_ask trivial
  · trivial

theorem recordRendering_quiet [ToString H] {sid : ℤ} {summary : String} {file : Option (Cfg × H)} :
    Quiet (recordRendering sid service summary file) := by
  unfold recordRendering
  split
  · trivial
  · split_ifs
    · trivial
    · exact within_ask_bind rfl fun row => trivial

theorem recordRenderingAfterWrite_quiet [ToString H] {summary : String} {file : Option (Cfg × H)} :
    Quiet (recordRenderingAfterWrite server service summary file) := by
  unfold recordRenderingAfterWrite
  split
  · trivial
  · split_ifs
    · trivial
    · split
      · exact recordRendering_quiet
      · exact within_ask_bind trivial fun file => recordRendering_quiet

theorem beforeOf_quiet {c : Write H} : Quiet (beforeOf c) := by
  unfold beforeOf
  split
  · trivial
  · exact within_bind get_quiet fun got => trivial

theorem windowOf_quiet {c : Write H} : Quiet (windowOf c) := by
  unfold windowOf
  split_ifs
  · exact within_ask trivial
  · trivial

theorem refreshFacts_quiet {c : Write H} : Quiet (refreshFacts c) := by
  unfold refreshFacts
  split_ifs
  · trivial
  · exact within_ask trivial

theorem rowShaOf_quiet [ToString H] {c : Write H} {planned : Option H} : Quiet (rowShaOf c planned) := by
  refine within_bind ?_ fun sha => trivial
  unfold rowShaOf.fileNow
  split
  · trivial
  · split
    · trivial
    · split
      · exact within_ask_bind trivial fun read => trivial
      · trivial

theorem setDigest_quiet {reply : Reply H} : Quiet (setDigest server service reply) := by
  unfold setDigest
  split
  · trivial
  · exact hashOf_quiet

theorem noteRendering_quiet [ToString H] {c : Write H} {got : Cfg} {rawSha : Option H} {note : String} :
    Quiet (noteRendering c got rawSha note) := by
  unfold noteRendering
  split
  · exact within_bind recordRenderingAfterWrite_quiet fun recorded => trivial
  · trivial

variable [DecidableEq H]

/-- The proof of a file carries its digest. -/
theorem proofOf_quiet {planned : Option H} {f : FileRead H} :
    (proofOf server service planned f).Within ApiOp.quiet fun proof =>
      proof.sha256 = some f.sha := by
  refine within_bind renderingOf_quiet fun rendering => ?_
  split_ifs
  · rfl
  · rfl
  · refine within_bind onRecord_quiet fun record => within_bind liveOnceLoaded_quiet fun live => ?_
    split_ifs
    · rfl
    · refine within_bind differingPlace_quiet fun place => within_bind ?_ fun why => rfl
      simp

theorem fileProof_quiet {planned : Option H} {capture : Bool} :
    Quiet (fileProof server service planned capture) := by
  unfold fileProof
  split_ifs
  · trivial
  · refine within_ask_bind trivial fun read => ?_
    split
    · trivial
    · exact Prog.Within.mono proofOf_quiet (fun _ h => h) fun _ _ => trivial

theorem askTheFile_quiet {planned : Option H} {discard : Bool} :
    Quiet (askTheFile server service planned discard) := by
  refine within_bind fileProof_quiet fun proof => ?_
  split_ifs <;> trivial

theorem plannedOf_quiet {c : Write H} : Quiet (plannedOf c) := by
  unfold plannedOf
  split_ifs
  · exact within_bind askTheFile_quiet fun asked => trivial
  · trivial

theorem fileReadBack_quiet {c : Write H} {expect h1 : H} {planned : Option H} {got : Cfg}
    {unwritten : String} : Quiet (fileReadBack c expect h1 planned got unwritten) := by
  unfold fileReadBack
  split
  · refine within_ask_bind trivial fun read => ?_
    split
    · split_ifs <;> trivial
    · split_ifs <;> trivial
  · split_ifs <;> trivial

variable [ToString H]

theorem afterASetFailure_quiet {expect : H} {reply : Reply H} :
    Quiet (afterASetFailure server service expect reply) := by
  refine within_bind hashOf_quiet fun now => ?_
  split
  · trivial
  · split_ifs <;> trivial

end Quiet

/-! ## The functions that settle -/

section Settles

variable [DecidableEq H] [ToString H] {server : Server} {service : Service} {row : Row H}
  {cfg : Cfg} {digest : H} {discard : Bool}

omit [DecidableEq H] [ToString H] in
theorem sendWrite_settles (attempts : ℕ) {reply : Option (Reply H)} {silent : Bool} :
    Settles service (sendWrite server service attempts reply silent) := by
  induction attempts generalizing reply silent with
  | zero => trivial
  | succ attempts ih =>
    refine within_ask_bind rfl fun reply => ?_
    split_ifs
    · trivial
    · exact ih

omit [ToString H] in
theorem writeFile_settles {planned : Option H} {discard : Bool} :
    Settles service (writeFile server service planned discard) := by
  unfold writeFile
  split_ifs
  · trivial
  · refine within_bind askTheFile_quiet.settles fun asked => ?_
    split
    · trivial
    · refine within_bind (sendWrite_settles 1) fun sent => ?_
      split_ifs <;> trivial

omit [DecidableEq H] in
theorem finishSettled_settles {again : Cfg} :
    Settles service (finishSettled server service row again digest) := by
  refine within_ask_bind (show Source.jen ≠ .pending by decide) fun finished => ?_
  refine within_bind recordRenderingAfterWrite_quiet.settles fun recorded => ?_
  split_ifs <;> trivial

theorem reconcileLive_settles :
    Settles service (reconcileLive server service row cfg digest discard) := by
  refine within_bind settlementWaits_quiet.settles fun waits => ?_
  split
  · trivial
  split
  · trivial
  refine within_bind writeFile_settles fun wrote => ?_
  split
  · trivial
  refine within_bind get_quiet.settles fun again => ?_
  split
  · split
    · exact finishSettled_settles
    · trivial
  · trivial

theorem reconcileRow_settles :
    Settles service (reconcileRow server service row cfg digest discard) := by
  unfold reconcileRow
  split
  · unfold reconcileDamaged
    split_ifs <;> exact within_ask_bind trivial fun done => trivial
  · refine within_bind rowAge_quiet.settles fun age => ?_
    split_ifs
    · trivial
    · exact within_ask_bind trivial fun done => trivial
    · exact reconcileLive_settles
    · trivial

theorem reconcilePending_settles :
    Settles service (reconcilePending server service cfg digest discard) := by
  unfold reconcilePending
  split
  · trivial
  · split_ifs
    · trivial
    · refine within_ask_bind trivial fun row => ?_
      split
      · trivial
      · exact reconcileRow_settles

omit [ToString H] in
theorem stalePending_settles : Settles service (stalePending server service : ApiM H _) := by
  have hsupersede : ∀ row : Row H, Settles service (supersede row) := fun row =>
    within_ask_bind trivial fun done => trivial
  unfold stalePending
  split
  · trivial
  · refine within_ask_bind trivial fun row => ?_
    split
    · trivial
    · split
      · exact hsupersede _
      · refine within_bind get_quiet.settles fun got => ?_
        split
        · trivial
        · refine within_bind rowAge_quiet.settles fun age => ?_
          split
          · trivial
          · split
            · trivial
            · exact hsupersede _

theorem pendingBlock_settles : Settles service (pendingBlock server service : ApiM H _) := by
  unfold pendingBlock
  split
  · trivial
  · refine unlessUnreadable_within (within_ask_bind trivial fun row => ?_) trivial
    split
    · trivial
    · split_ifs
      · trivial
      · refine within_bind get_quiet.settles fun got => ?_
        split
        · trivial
        · refine within_bind reconcilePending_settles fun done => ?_
          refine within_ask_bind trivial fun left => ?_
          split_ifs <;> trivial

theorem blockedBy_settles {c : Write H} : Settles c.service (blockedBy c) := by
  unfold blockedBy
  split_ifs
  · refine within_bind stalePending_settles fun earlier => ?_
    split <;> trivial
  · exact within_bind pendingBlock_settles fun blocked => trivial

theorem purpose_settled (p : Purpose) : p.source ≠ .pending ∧ p.source ≠ .damaged := by
  cases p <;> decide

omit [DecidableEq H] [ToString H] in
theorem finishPending_settles {c : Write H} {h1 : H} {got : Cfg} {pendingId : Option ℕ} :
    Settles service (finishPending c h1 got pendingId) := by
  unfold finishPending
  split
  · refine within_ask_bind (purpose_settled c.purpose).1 fun finished => ?_
    split_ifs
    · trivial
    · exact within_ask_bind trivial fun _ => trivial
  · trivial

omit [DecidableEq H] in
theorem applyFinish_settles {c : Write H} {expect h1 : H} {got : Cfg} {pendingId : Option ℕ}
    {rawSha : Option H} {note : String} :
    Settles c.service (applyFinish c expect h1 got pendingId rawSha note) := by
  refine within_bind finishPending_settles fun finished => ?_
  refine within_bind noteRendering_quiet.settles fun note => ?_
  split_ifs <;> trivial

theorem applyVerify_settles {c : Write H} {expect h1 : H} {planned : Option H}
    {pendingId : Option ℕ} {unwritten : String} :
    Settles c.service (applyVerify c expect h1 planned pendingId unwritten) := by
  refine within_bind get_quiet.settles fun got => ?_
  split
  · trivial
  split
  · trivial
  refine within_bind fileReadBack_quiet.settles fun read => ?_
  split
  · trivial
  · exact applyFinish_settles

end Settles

end JenKea.Api
