import JenKea.Settings.Update
import Mathlib.Data.List.Basic

/-!
# Updates are not lost

The calls that have committed, in the order of their commits, give the stored value: the lock makes each of them write
what it makes of the value that it found. A call returns `True` after the commit of `jen_db` that follows its own; where
that one raises after a new value was stored, the call returns `False` for what it wrote, or does it again.
-/

namespace JenKea.Settings

open State

section Orders

variable {ι : Type} {mutate : ι → String → Except Failure (Option String)} {v w : String} {order : List (ι × Bool)}
  {c : ι} {written : Bool}

/-- The calls, one after the other, make the last value of the first; those that have written nothing leave it. -/
def Replays (mutate : ι → String → Except Failure (Option String)) : String → List (ι × Bool) → String → Prop
  | v, [], w => v = w
  | v, (c, written) :: order, w =>
    (written = false → applied (mutate c) v = v) ∧ Replays mutate (applied (mutate c) v) order w

/-- The next commit. -/
theorem Replays.snoc (h : Replays mutate v order w) (hid : written = false → applied (mutate c) w = w) :
    Replays mutate v (order ++ [(c, written)]) (applied (mutate c) w) := by
  induction order generalizing v with
  | nil =>
    have hv : v = w := h
    rw [hv]
    exact ⟨hid, rfl⟩
  | cons x order ih => exact ⟨h.1, ih h.2⟩

/-- A call that has written nothing is taken out of the order. -/
theorem Replays.erase [DecidableEq ι] (h : Replays mutate v order w) (c : ι) :
    Replays mutate v (order.erase (c, false)) w := by
  induction order generalizing v with
  | nil => exact h
  | cons x order ih =>
    by_cases hx : x = (c, false)
    · have hid : applied (mutate c) v = v := by
        subst hx
        exact h.1 rfl
      subst hx
      rw [List.erase_cons_head]
      have hrest : Replays mutate (applied (mutate c) v) order w := h.2
      rwa [hid] at hrest
    · rw [List.erase_cons_tail (by simpa using hx)]
      exact ⟨h.1, ih h.2⟩

theorem Replays.eq_foldl (h : Replays mutate v order w) :
    w = (order.map Prod.fst).foldl (fun v c => applied (mutate c) v) v := by
  induction order generalizing v with
  | nil => exact Eq.symm h
  | cons x order ih => exact ih h.2

end Orders

/-! ## What each call has -/

section Stages

variable {ι : Type} [DecidableEq ι] {mutate : ι → String → Except Failure (Option String)} {s t : State ι} {c d : ι}
  {e : Event ι} {v₀ : String}

/-- What a call at a stage has of the row: it is there after the first block, and locked from the `SELECT` to the
commit. -/
def Has (mutate : String → Except Failure (Option String)) (row : Option (Option String)) (mine : Prop)
    (draft : Option String) : Stage → Prop
  | .createCommit => row.isSome ∧ ¬ mine ∨ row = none ∧ mine ∧ draft = some ""
  | .createExit => row.isSome ∧ ¬ mine
  | .select => row.isSome ∧ ¬ mine
  | .mutate current => row = some current ∧ mine ∧ draft = none
  | .update new => ∃ current, row = some current ∧ mine ∧ draft = none ∧ mutate (current.getD "") = .ok (some new)
  | .commit false => row.isSome ∧ mine ∧ draft = none ∧ applied mutate (valueOf row) = valueOf row
  | .commit true => row.isSome ∧ mine ∧ draft = some (applied mutate (valueOf row))
  | _ => ¬ mine

/-- Every call has what its stage says, and nothing is written without the lock. -/
structure Sane (mutate : ι → String → Except Failure (Option String)) (s : State ι) : Prop where
  call : ∀ c, Has (mutate c) s.row (s.lock = some c) s.draft (s.calls c).stage
  free : s.lock = none → s.draft = none

/-- The stages after the commit. -/
def Stage.isCommitted : Stage → Bool
  | .exit _ => true
  | .returned true => true
  | _ => false

/-- The calls that have committed, in an order in which they give the stored value. -/
structure Serial (mutate : ι → String → Except Failure (Option String)) (v₀ : String) (s : State ι)
    (order : List (ι × Bool)) : Prop where
  nodup : (order.map Prod.fst).Nodup
  replays : Replays mutate v₀ order (valueOf s.row)
  mem : ∀ c, c ∈ order.map Prod.fst ↔ (s.calls c).stage.isCommitted = true
  written : ∀ c written, (s.calls c).stage = .exit written → (c, written) ∈ order

/-! ## What a step leaves -/

@[simp] theorem row_goTo (stage : Stage) : (s.goTo c stage).row = s.row := rfl

@[simp] theorem lock_goTo (stage : Stage) : (s.goTo c stage).lock = s.lock := rfl

@[simp] theorem draft_goTo (stage : Stage) : (s.goTo c stage).draft = s.draft := rfl

@[simp] theorem stage_goTo (stage : Stage) : ((s.goTo c stage).calls c).stage = stage := by
  unfold goTo
  dsimp only
  rw [Function.update_self]

theorem calls_goTo (stage : Stage) (h : d ≠ c) : (s.goTo c stage).calls d = s.calls d :=
  Function.update_of_ne h _ _

/-- A call that has no lock, before and after, has what it had. -/
theorem Has.of_not_mine {m : String → Except Failure (Option String)} {row row' : Option (Option String)}
    {mine mine' : Prop} {draft draft' : Option String} {stage : Stage} (h : Has m row mine draft stage) (hmine : ¬ mine)
    (hmine' : ¬ mine') (hrow : row.isSome → row'.isSome) : Has m row' mine' draft' stage := by
  cases stage with
  | createCommit =>
    rcases h with ⟨hsome, -⟩ | ⟨-, hlock, -⟩
    · exact .inl ⟨hrow hsome, hmine'⟩
    · exact absurd hlock hmine
  | createExit => exact ⟨hrow h.1, hmine'⟩
  | select => exact ⟨hrow h.1, hmine'⟩
  | mutate current => exact absurd h.2.1 hmine
  | update new =>
    obtain ⟨-, -, hlock, -⟩ := h
    exact absurd hlock hmine
  | commit written => cases written <;> exact absurd h.2.1 hmine
  | _ => exact hmine'

/-- A step of one call: the others are where they were, and the row and the lock are, or the lock was free or the call's
and is. -/
structure Moves (s : State ι) (c : ι) (t : State ι) : Prop where
  others : ∀ d, d ≠ c → t.calls d = s.calls d
  kept : (t.row = s.row ∧ t.lock = s.lock ∧ t.draft = s.draft) ∨
    (∀ d, d ≠ c → s.lock ≠ some d ∧ t.lock ≠ some d) ∧ (s.row.isSome → t.row.isSome)

theorem Sane.step {stage : Stage} (h : Sane mutate s) (hmoves : Moves s c t) (hstage : (t.calls c).stage = stage)
    (hcall : Has (mutate c) t.row (t.lock = some c) t.draft stage) (hfree : t.lock = none → t.draft = none) :
    Sane mutate t := by
  refine ⟨fun d => ?_, hfree⟩
  by_cases hd : d = c
  · rw [hd, hstage]
    exact hcall
  · have hhas := h.call d
    rw [hmoves.others d hd]
    rcases hmoves.kept with ⟨hrow, hlock, hdraft⟩ | ⟨hlock, hrow⟩
    · rwa [hrow, hlock, hdraft]
    · exact hhas.of_not_mine (hlock d hd).1 (hlock d hd).2 hrow

/-- A step that commits nothing leaves the order. -/
theorem Serial.same {order : List (ι × Bool)} (h : Serial mutate v₀ s order) (hothers : ∀ d, d ≠ c → t.calls d = s.calls d)
    (hvalue : valueOf t.row = valueOf s.row)
    (hcall : (t.calls c).stage.isCommitted = (s.calls c).stage.isCommitted)
    (hexit : ∀ written, (t.calls c).stage ≠ .exit written) : Serial mutate v₀ t order := by
  refine ⟨h.nodup, hvalue ▸ h.replays, fun d => ?_, fun d written hd => ?_⟩
  · by_cases hd : d = c
    · rw [hd, hcall]
      exact h.mem c
    · rw [hothers d hd]
      exact h.mem d
  · by_cases hdc : d = c
    · rw [hdc] at hd
      exact absurd hd (hexit written)
    · rw [hothers d hdc] at hd
      exact h.written d written hd

/-- A commit is the last of the order. -/
theorem Serial.commit {order : List (ι × Bool)} {written : Bool} (h : Serial mutate v₀ s order)
    (hothers : ∀ d, d ≠ c → t.calls d = s.calls d) (hbefore : (s.calls c).stage.isCommitted = false)
    (hafter : (t.calls c).stage = .exit written) (hvalue : valueOf t.row = applied (mutate c) (valueOf s.row))
    (hid : written = false → applied (mutate c) (valueOf s.row) = valueOf s.row) :
    Serial mutate v₀ t (order ++ [(c, written)]) := by
  have hnew : c ∉ order.map Prod.fst := fun hmem => by
    rw [h.mem c, hbefore] at hmem
    cases hmem
  have hmap : (order ++ [(c, written)]).map Prod.fst = order.map Prod.fst ++ [c] := List.map_append
  refine ⟨?_, ?_, fun d => ?_, fun d written' hd => ?_⟩
  · rw [hmap]
    exact h.nodup.append (List.nodup_singleton c) (List.disjoint_singleton.mpr hnew)
  · rw [hvalue]
    exact h.replays.snoc hid
  · rw [hmap, List.mem_append, List.mem_singleton]
    by_cases hdc : d = c
    · rw [hdc, hafter]
      exact ⟨fun _ => rfl, fun _ => .inr rfl⟩
    · rw [hothers d hdc, ← h.mem d]
      exact ⟨fun hmem => hmem.resolve_right hdc, .inl⟩
  · rw [List.mem_append, List.mem_singleton]
    by_cases hdc : d = c
    · subst hdc
      obtain rfl := Stage.exit.inj (hafter.symm.trans hd)
      exact .inr rfl
    · rw [hothers d hdc] at hd
      exact .inl (h.written d written' hd)

/-- A call that has written nothing leaves the order. -/
theorem Serial.leave {order : List (ι × Bool)} (h : Serial mutate v₀ s order)
    (hothers : ∀ d, d ≠ c → t.calls d = s.calls d) (hrow : t.row = s.row) (hbefore : (s.calls c).stage = .exit false)
    (hafter : (t.calls c).stage.isCommitted = false) : Serial mutate v₀ t (order.erase (c, false)) := by
  have hmem : (c, false) ∈ order := h.written c false hbefore
  have hpairs : order.Nodup := h.nodup.of_map _
  have hrest : ∀ x, x ∈ order.erase (c, false) ↔ x ∈ order ∧ x.1 ≠ c := by
    intro x
    rw [hpairs.mem_erase_iff]
    constructor
    · rintro ⟨hne, hx⟩
      refine ⟨hx, fun heq => hne ?_⟩
      exact List.inj_on_of_nodup_map h.nodup hx hmem heq
    · rintro ⟨hx, hne⟩
      exact ⟨fun heq => hne (heq ▸ rfl), hx⟩
  refine ⟨h.nodup.sublist (List.erase_sublist.map _), hrow ▸ h.replays.erase c, fun d => ?_, fun d written hd => ?_⟩
  · rw [List.mem_map]
    by_cases hdc : d = c
    · rw [hdc, hafter]
      constructor
      · rintro ⟨x, hx, rfl⟩
        exact absurd rfl ((hrest x).mp hx).2
      · intro hfalse
        cases hfalse
    · rw [hothers d hdc, ← h.mem d, List.mem_map]
      constructor
      · rintro ⟨x, hx, rfl⟩
        exact ⟨x, ((hrest x).mp hx).1, rfl⟩
      · rintro ⟨x, hx, rfl⟩
        exact ⟨x, (hrest x).mpr ⟨hx, hdc⟩, rfl⟩
  · by_cases hdc : d = c
    · rw [hdc] at hd
      rw [hd] at hafter
      cases hafter
    · rw [hothers d hdc] at hd
      exact (hrest (d, written)).mpr ⟨h.written d written hd, hdc⟩

/-! ## One event -/

/-- Where a call is after what was raised in it. -/
theorem stage_after (call : Call) (f : Failure) :
    (call.after f).stage = .create ∨ (call.after f).stage = .returned false ∨ (call.after f).stage = .raised := by
  cases f with
  | base => exact .inr (.inr rfl)
  | error code =>
    unfold Call.after
    dsimp only
    split_ifs
    · exact .inl rfl
    · exact .inr (.inl rfl)

theorem calls_fail (f : Failure) : (s.fail c f).calls c = (s.calls c).after f :=
  Function.update_self _ _ _

theorem others_fail (f : Failure) : ∀ d, d ≠ c → (s.fail c f).calls d = s.calls d :=
  fun _ hd => Function.update_of_ne hd _ _

theorem Sane.fail (h : Sane mutate s) (f : Failure) : Sane mutate (s.fail c f) := by
  have hlock : (s.fail c f).lock = if s.lock = some c then none else s.lock := rfl
  have hdraft : (s.fail c f).draft = if s.lock = some c then none else s.draft := rfl
  have hmine : (s.fail c f).lock ≠ some c := by
    rw [hlock]
    split_ifs with hc
    · nofun
    · exact hc
  refine h.step ⟨others_fail f, ?_⟩ rfl ?_ fun hnone => ?_
  · by_cases hc : s.lock = some c
    · refine .inr ⟨fun d hd => ⟨?_, ?_⟩, id⟩
      · rw [hc]
        exact fun heq => hd (Option.some.inj heq).symm
      · rw [hlock, if_pos hc]
        nofun
    · exact .inl ⟨rfl, hlock.trans (if_neg hc), hdraft.trans (if_neg hc)⟩
  · rw [calls_fail]
    rcases stage_after (s.calls c) f with hstage | hstage | hstage <;> rw [hstage] <;> exact hmine
  · rw [hdraft]
    rw [hlock] at hnone
    split_ifs at hnone ⊢ with hc
    · rfl
    · exact h.free hnone

theorem Serial.fail {order : List (ι × Bool)} (h : Serial mutate v₀ s order) (f : Failure)
    (hend : s.hasEnded c = false) (hlate : (s.calls c).stage ≠ .exit true) :
    ∃ order', Serial mutate v₀ (s.fail c f) order' := by
  have hafter : ((s.fail c f).calls c).stage.isCommitted = false := by
    rw [calls_fail]
    rcases stage_after (s.calls c) f with hstage | hstage | hstage <;> rw [hstage] <;> rfl
  cases hcommitted : (s.calls c).stage.isCommitted with
  | false =>
    refine ⟨order, h.same (others_fail f) rfl (hafter.trans hcommitted.symm) fun written hexit => ?_⟩
    rw [hexit] at hafter
    cases hafter
  | true =>
    have hexit : (s.calls c).stage = .exit false := by
      unfold hasEnded at hend
      cases hstage : (s.calls c).stage with
      | exit written =>
        cases written with
        | false => rfl
        | true => exact absurd hstage hlate
      | returned result =>
        rw [hstage] at hend
        cases hend
      | _ =>
        rw [hstage] at hcommitted
        cases hcommitted
    exact ⟨_, h.leave (others_fail f) rfl hexit hafter⟩

/-- A step of a call that commits nothing. -/
theorem kept_quiet {order : List (ι × Bool)} {stage : Stage} (h : Sane mutate s) (hs : Serial mutate v₀ s order)
    (hmoves : Moves s c t) (hvalue : valueOf t.row = valueOf s.row) (hstage : (t.calls c).stage = stage)
    (hcall : Has (mutate c) t.row (t.lock = some c) t.draft stage) (hfree : t.lock = none → t.draft = none)
    (hcommitted : stage.isCommitted = (s.calls c).stage.isCommitted) (hexit : ∀ written, stage ≠ .exit written) :
    Sane mutate t ∧ ∃ order', Serial mutate v₀ t order' := by
  refine ⟨h.step hmoves hstage hcall hfree, order, hs.same hmoves.others hvalue ?_ fun written => ?_⟩
  · rw [hstage]
    exact hcommitted
  · rw [hstage]
    exact hexit written

/-- A commit of a call that holds the lock. -/
theorem kept_commit {order : List (ι × Bool)} {written : Bool} (h : Sane mutate s) (hs : Serial mutate v₀ s order)
    (hstage : (s.calls c).stage = .commit written) :
    Sane mutate ((s.commit c).goTo c (.exit written)) ∧
      ∃ order', Serial mutate v₀ ((s.commit c).goTo c (.exit written)) order' := by
  have hhas := h.call c
  rw [hstage] at hhas
  have hlock : s.lock = some c := by
    cases written with
    | false => exact hhas.2.1
    | true => exact hhas.2.1
  have hvalue : valueOf ((s.draft.map some).or s.row) = applied (mutate c) (valueOf s.row) ∧
      (written = false → applied (mutate c) (valueOf s.row) = valueOf s.row) := by
    cases written with
    | false =>
      obtain ⟨-, -, hdraft, hid⟩ := hhas
      rw [hdraft]
      exact ⟨hid.symm, fun _ => hid⟩
    | true =>
      obtain ⟨-, -, hdraft⟩ := hhas
      rw [hdraft]
      exact ⟨rfl, nofun⟩
  have hrow : s.row.isSome → ((s.draft.map some).or s.row).isSome := by
    intro hsome
    cases s.draft with
    | none => exact hsome
    | some new => rfl
  have hcommit : s.commit c = { s with row := (s.draft.map some).or s.row, lock := none, draft := none } := by
    unfold State.commit
    rw [if_pos hlock]
  have hothers : ∀ d, d ≠ c → ((s.commit c).goTo c (.exit written)).calls d = s.calls d := by
    intro d hd
    rw [calls_goTo _ hd, hcommit]
  rw [hcommit] at hothers ⊢
  refine ⟨h.step ⟨hothers, .inr ⟨fun d hd => ⟨?_, nofun⟩, hrow⟩⟩ (stage_goTo _) nofun fun _ => rfl, _,
    hs.commit hothers ?_ (stage_goTo _) hvalue.1 hvalue.2⟩
  · rw [hlock]
    exact fun heq => hd (Option.some.inj heq).symm
  · rw [hstage]
    rfl

/-- What a call gets on to leaves every call with what its stage says, and the commits in an order. -/
theorem kept_advance {order : List (ι × Bool)} (h : Sane mutate s) (hs : Serial mutate v₀ s order)
    (hstep : s.advance mutate c = some t) : Sane mutate t ∧ ∃ order', Serial mutate v₀ t order' := by
  have hhas := h.call c
  have hgo : ∀ stage, Moves s c (s.goTo c stage) := fun stage => ⟨fun d hd => calls_goTo stage hd, .inl ⟨rfl, rfl, rfl⟩⟩
  unfold advance at hstep
  cases hstage : (s.calls c).stage with
  | create =>
    rw [hstage] at hstep hhas
    dsimp only at hstep
    by_cases hlock : s.lock = none
    · rw [if_neg (not_not.mpr hlock)] at hstep
      by_cases hrow : s.row.isSome
      · rw [if_pos hrow] at hstep
        obtain rfl := Option.some.inj hstep
        exact kept_quiet h hs (hgo _) rfl (stage_goTo _) (.inl ⟨hrow, hhas⟩) h.free (by rw [hstage]; rfl) nofun
      · rw [if_neg hrow] at hstep
        obtain rfl := Option.some.inj hstep
        refine kept_quiet h hs ⟨(hgo _).others, .inr ⟨fun d hd => ⟨?_, ?_⟩, id⟩⟩ rfl (stage_goTo _)
          (.inr ⟨Option.not_isSome_iff_eq_none.mp hrow, rfl, rfl⟩) nofun (by rw [hstage]; rfl) nofun
        · rw [hlock]
          nofun
        · exact fun heq => hd (Option.some.inj heq).symm
    · rw [if_pos hlock] at hstep
      cases hstep
  | createCommit =>
    rw [hstage] at hstep hhas
    obtain rfl := Option.some.inj hstep
    rcases hhas with ⟨hrow, hlock⟩ | ⟨hrow, hlock, hdraft⟩
    · have hcommit : s.commit c = s := if_neg hlock
      rw [hcommit]
      exact kept_quiet h hs (hgo _) rfl (stage_goTo _) ⟨hrow, hlock⟩ h.free (by rw [hstage]; rfl) nofun
    · -- the row that was made is the empty one, as an absent row counts
      have hcommit : s.commit c = { s with row := some (some ""), lock := none, draft := none } := by
        unfold State.commit
        rw [if_pos hlock, hdraft]
        rfl
      rw [hcommit]
      refine kept_quiet h hs ⟨fun d hd => calls_goTo _ hd, .inr ⟨fun d hd => ⟨?_, nofun⟩, fun _ => rfl⟩⟩ ?_ (stage_goTo _)
        ⟨rfl, nofun⟩ (fun _ => rfl) (by rw [hstage]; rfl) nofun
      · rw [hlock]
        exact fun heq => hd (Option.some.inj heq).symm
      · rw [hrow]
        rfl
  | createExit =>
    rw [hstage] at hstep hhas
    obtain rfl := Option.some.inj hstep
    exact kept_quiet h hs (hgo _) rfl (stage_goTo _) hhas h.free (by rw [hstage]; rfl) nofun
  | select =>
    rw [hstage] at hstep hhas
    dsimp only at hstep
    obtain ⟨hrow, -⟩ := hhas
    obtain ⟨current, hcurrent⟩ := Option.isSome_iff_exists.mp hrow
    by_cases hlock : s.lock = none
    · rw [if_neg (not_not.mpr hlock), hcurrent] at hstep
      obtain rfl := Option.some.inj hstep
      refine kept_quiet h hs ⟨(hgo _).others, .inr ⟨fun d hd => ⟨?_, ?_⟩, id⟩⟩ rfl (stage_goTo _)
        ⟨hcurrent, rfl, h.free hlock⟩ nofun (by rw [hstage]; rfl) nofun
      · rw [hlock]
        nofun
      · exact fun heq => hd (Option.some.inj heq).symm
    · rw [if_pos hlock] at hstep
      cases hstep
  | mutate current =>
    rw [hstage] at hstep hhas
    dsimp only at hstep
    obtain ⟨hrow, hlock, hdraft⟩ := hhas
    have hvalue : valueOf s.row = current.getD "" := by
      rw [hrow]
      rfl
    cases hmutate : mutate c (current.getD "") with
    | error f =>
      rw [hmutate] at hstep
      obtain rfl := Option.some.inj hstep
      refine ⟨h.fail f, hs.fail f ?_ ?_⟩
      · unfold hasEnded
        rw [hstage]
      · rw [hstage]
        nofun
    | ok result =>
      rw [hmutate] at hstep
      -- a value that is not written is the one that was read
      have hdeclined : (∀ new, result = some new → some new = current) →
          applied (mutate c) (valueOf s.row) = valueOf s.row := by
        intro hsame
        unfold applied
        rw [hvalue, hmutate]
        cases result with
        | none => rfl
        | some new => exact congrArg (Option.getD · "") (hsame new rfl)
      cases result with
      | none =>
        obtain rfl := Option.some.inj hstep
        exact kept_quiet h hs (hgo _) rfl (stage_goTo _) ⟨hrow ▸ rfl, hlock, hdraft, hdeclined nofun⟩ h.free
          (by rw [hstage]; rfl) nofun
      | some new =>
        dsimp only at hstep
        by_cases hsame : some new = current
        · rw [if_pos hsame] at hstep
          obtain rfl := Option.some.inj hstep
          exact kept_quiet h hs (hgo _) rfl (stage_goTo _)
            ⟨hrow ▸ rfl, hlock, hdraft, hdeclined fun new' heq => Option.some.inj heq ▸ hsame⟩ h.free
            (by rw [hstage]; rfl) nofun
        · rw [if_neg hsame] at hstep
          obtain rfl := Option.some.inj hstep
          exact kept_quiet h hs (hgo _) rfl (stage_goTo _) ⟨current, hrow, hlock, hdraft, hmutate⟩ h.free
            (by rw [hstage]; rfl) nofun
  | update new =>
    rw [hstage] at hstep hhas
    dsimp only at hstep
    obtain ⟨current, hrow, hlock, hdraft, hmutate⟩ := hhas
    have hnew : applied (mutate c) (valueOf s.row) = new := by
      have hvalue : valueOf s.row = current.getD "" := by
        rw [hrow]
        rfl
      unfold applied
      rw [hvalue, hmutate]
    have hsome : ¬ s.row.isNone = true := by
      rw [hrow]
      nofun
    rw [if_neg hsome, if_pos (.inr hlock)] at hstep
    obtain rfl := Option.some.inj hstep
    refine kept_quiet h hs ⟨(hgo _).others, .inr ⟨fun d hd => ⟨?_, ?_⟩, id⟩⟩ rfl (stage_goTo _)
      ⟨hrow ▸ rfl, rfl, congrArg some hnew.symm⟩ nofun (by rw [hstage]; rfl) nofun
    · rw [hlock]
      exact fun heq => hd (Option.some.inj heq).symm
    · exact fun heq => hd (Option.some.inj heq).symm
  | commit written =>
    rw [hstage] at hstep
    obtain rfl := Option.some.inj hstep
    exact kept_commit h hs hstage
  | exit written =>
    rw [hstage] at hstep hhas
    obtain rfl := Option.some.inj hstep
    exact kept_quiet h hs (hgo _) rfl (stage_goTo _) hhas h.free (by rw [hstage]; rfl) nofun
  | returned result =>
    rw [hstage] at hstep
    cases hstep
  | raised =>
    rw [hstage] at hstep
    cases hstep

/-! ## Runs -/

/-- Something is raised in a call that has stored a new value, before it returns. -/
def isLate (s : State ι) : Event ι → Bool
  | .advance _ => false
  | .fail c _ => (s.calls c).stage == .exit true

/-- Nothing is raised in a call between the commit of a new value and its return. -/
def undisturbed (mutate : ι → String → Except Failure (Option String)) : State ι → List (Event ι) → Bool
  | _, [] => true
  | s, e :: events => !isLate s e && (s.next mutate e).all fun t => undisturbed mutate t events

/-- Once every call that has begun has ended, the stored value is what the functions of those that returned `True` make
of the first one, each applied once, in some order. -/
def Kept (mutate : ι → String → Except Failure (Option String)) (v₀ : String) (s : State ι) : Prop :=
  (∀ c, s.calls c = ⟨0, .create⟩ ∨ s.hasEnded c = true) →
    ∃ order : List ι, order.Nodup ∧ (∀ c, c ∈ order ↔ (s.calls c).stage = .returned true) ∧
      valueOf s.row = order.foldl (fun v c => applied (mutate c) v) v₀

theorem kept_next {order : List (ι × Bool)} (h : Sane mutate s) (hs : Serial mutate v₀ s order)
    (hlate : isLate s e = false) (hstep : s.next mutate e = some t) :
    Sane mutate t ∧ ∃ order', Serial mutate v₀ t order' := by
  cases e with
  | advance c => exact kept_advance h hs hstep
  | fail c f =>
    unfold next at hstep
    dsimp only at hstep
    cases hend : s.hasEnded c with
    | true =>
      rw [hend, if_pos rfl] at hstep
      cases hstep
    | false =>
      rw [hend, if_neg nofun] at hstep
      obtain rfl := Option.some.inj hstep
      refine ⟨h.fail f, hs.fail f hend fun hexit => ?_⟩
      unfold isLate at hlate
      dsimp only at hlate
      rw [hexit] at hlate
      cases hlate

theorem kept_run {events : List (Event ι)} {order : List (ι × Bool)} (h : Sane mutate s) (hs : Serial mutate v₀ s order)
    (hevents : undisturbed mutate s events = true) (hrun : s.run mutate events = some t) :
    Sane mutate t ∧ ∃ order', Serial mutate v₀ t order' := by
  induction events generalizing s order with
  | nil =>
    obtain rfl := Option.some.inj hrun
    exact ⟨h, order, hs⟩
  | cons e events ih =>
    obtain ⟨u, hu, hrest⟩ := Option.bind_eq_some_iff.mp hrun
    unfold undisturbed at hevents
    rw [hu, Option.all_some, Bool.and_eq_true, Bool.not_eq_true'] at hevents
    obtain ⟨hsane, order', hserial⟩ := kept_next h hs hevents.1 hu
    exact ih hsane hserial hevents.2 hrest

omit [DecidableEq ι] in
theorem sane_start (row : Option (Option String)) : Sane mutate (start row) := ⟨fun _ => nofun, fun _ => rfl⟩

omit [DecidableEq ι] in
theorem serial_start (row : Option (Option String)) : Serial mutate (valueOf row) (start row) [] where
  nodup := List.nodup_nil
  replays := rfl
  mem := fun _ => ⟨nofun, nofun⟩
  written := nofun

theorem Serial.kept {order : List (ι × Bool)} (h : Serial mutate v₀ s order) : Kept mutate v₀ s := by
  intro hend
  refine ⟨order.map Prod.fst, h.nodup, fun c => (h.mem c).trans ?_, h.replays.eq_foldl⟩
  constructor
  · intro hcommitted
    rcases hend c with hc | hc
    · rw [hc] at hcommitted
      cases hcommitted
    · unfold hasEnded at hc
      cases hstage : (s.calls c).stage with
      | returned result =>
        rw [hstage] at hcommitted
        cases result with
        | true => rfl
        | false => cases hcommitted
      | raised =>
        rw [hstage] at hcommitted
        cases hcommitted
      | _ =>
        rw [hstage] at hc
        cases hc
  · intro hstage
    rw [hstage]
    rfl

end Stages

/-- However any number of calls interleave and whatever is raised in them, but between the commit of a new value and the
return, no update is lost and none is made twice. -/
theorem updates_serial {ι : Type} [DecidableEq ι] (mutate : ι → String → Except Failure (Option String))
    (row : Option (Option String)) (events : List (Event ι)) (s : State ι)
    (hrun : (start row).run mutate events = some s) (hevents : undisturbed mutate (start row) events = true) :
    Kept mutate (valueOf row) s := by
  obtain ⟨-, order, hserial⟩ := kept_run (sane_start row) (serial_start row) hevents hrun
  exact hserial.kept

/-- Each call adds its letter. -/
def addLetter (second : Bool) (value : String) : Except Failure (Option String) :=
  .ok (some (value ++ if second then "b" else "a"))

/-- Two first writers; the one that reads first is the victim of a deadlock, and tries again. -/
def retried : List (Event Bool) :=
  [.advance false, .advance false, .advance true, .advance true, .advance false, .advance true, .advance false,
    .advance false, .fail false (.error (some 1213)), .advance true, .advance true, .advance true, .advance true,
    .advance true] ++ List.replicate 8 (.advance false)

theorem updates_serial_retried : ∃ s, (start none).run addLetter retried = some s ∧ valueOf s.row = "ba" ∧
    Kept addLetter "" s :=
  ⟨_, rfl, rfl, updates_serial addLetter none retried _ rfl rfl⟩

/-- The connection is lost after the value was stored, as `jen_db` commits once more. -/
def lostAfterCommit : List (Event Bool) :=
  List.replicate 7 (.advance false) ++ [.fail false (.error (some 2013))]

/-- The call returns `False`, and the value is there. -/
theorem update_not_undone : ∃ s, (start none).run addLetter lostAfterCommit = some s ∧
    (s.calls false).stage = .returned false ∧ ¬ Kept addLetter "" s := by
  refine ⟨_, rfl, rfl, fun hkept => ?_⟩
  obtain ⟨order, -, hmem, hvalue⟩ := hkept fun c => by cases c <;> first | exact .inr rfl | exact .inl rfl
  have hempty : order = [] := by
    refine List.eq_nil_iff_forall_not_mem.mpr fun c hc => ?_
    have hstage := (hmem c).mp hc
    cases c <;> cases hstage
  rw [hempty] at hvalue
  exact absurd hvalue (by decide)

end JenKea.Settings
