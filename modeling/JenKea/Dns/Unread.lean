import JenKea.Dns.Converge

/-!
# A source that cannot be read

A query that fails answers with an empty list, as a source without devices does. So the records that came
from it stay just where the sources that answered ask for each of them at its address.
-/

namespace JenKea.Dns

variable {B : Backend}

/-- A live target asks the source, and the query fails. -/
def World.Failing (w : World B) (source : Source) : Prop :=
  ∃ target, w.target = some target ∧ target.enabled = true ∧ target.previewed = true ∧
    target.subnetIds ≠ [] ∧ w.sources source = none

/-- A run takes out no ledger row, and no record of the server, that came from a source whose query
failed. -/
def World.KeepsUnread (w : World B) (f : ℕ → Decision) : Prop :=
  ∀ name ip source, w.ledger.get name = some (ip, source) → w.Failing source →
    (w.sync f).held.get name = some ip ∧
      w.remote.count (B.record name ip) ≤ (w.sync f).remote.count (B.record name ip)

section Unread

variable {w : World B} {target : Target} {name : Name} {ip : Address}

/-- The world before the ledger is written: the ledger and the sources are as they were, and the record of
the pair stands as often. -/
structure Before (w : World B) (name : Name) (ip : Address) (t : World B) : Prop where
  ledger : t.ledger = w.ledger
  sources : t.sources = w.sources
  count : w.remote.count (B.record name ip) ≤ t.remote.count (B.record name ip)

/-- The plan leaves the pair: its name is not removed, and is written at its address alone. -/
structure Plan.Leaves (plan : Plan) (name : Name) (ip : Address) : Prop where
  add : ∀ x ∈ plan.add, x.1 = name → x.2 = ip
  update : ∀ x ∈ plan.update, x.1 = name → x.2 = ip
  remove : name ∉ plan.remove

/-- What was delivered leaves the pair. -/
structure Delivered.Leaves (d : Delivered) (name : Name) (ip : Address) : Prop where
  upserts : ∀ u ∈ d.upserts, u.1 = name → u.2.1 = ip
  removes : name ∉ d.removes

/-- Whatever the environment decides, `Before` holds, and what is returned is in `P`. -/
abbrev Stays {α : Type} (w : World B) (name : Name) (ip : Address) (p : DnsM B α) (P : α → Prop) :
    Prop := p.Keeps host (Before w name ip) P

/-- A call that changes neither the server nor the ledger. -/
theorem before_after (o : DnsOp) {c : Decision} {t : World B} (ho : o.changes = false)
    (hledger : ∀ us rs, o ≠ .updateLedger us rs) (h : Before w name ip t) :
    Before w name ip (t.after c o) := by
  cases o with
  | add | remove => cases ho
  | updateLedger us rs => exact absurd rfl (hledger us rs)
  | _ => exact ⟨h.ledger, h.sources, h.count⟩

theorem before_add {c : Decision} {t : World B} {name' : Name} {ip' : Address}
    (h : Before w name ip t) : Before w name ip (t.after c (.add name' ip')) := by
  unfold World.after
  dsimp only
  split_ifs
  all_goals refine ⟨h.ledger, h.sources, h.count.trans ?_⟩
  all_goals simp

theorem before_remove {c : Decision} {t : World B} {name' : Name} {ip' : Address}
    (hne : name' = name → ip' ≠ ip) (h : Before w name ip t) :
    Before w name ip (t.after c (.remove name' ip')) := by
  have hrec : B.record name ip ≠ B.record name' ip' := fun heq => by
    obtain ⟨hname, hip⟩ := B.record_injective heq
    exact hne hname.symm hip.symm
  have hcount : ∀ l : List B.Rec, (l.filter fun x => x ≠ B.record name' ip').count (B.record name ip) =
      l.count (B.record name ip) := fun l => List.count_filter (decide_eq_true hrec)
  unfold World.after
  dsimp only
  split_ifs
  · refine ⟨h.ledger, h.sources, h.count.trans (le_of_eq ?_)⟩
    dsimp only
    rw [← hcount (B.delete _ _), B.delete_others, hcount]
  · exact ⟨h.ledger, h.sources, h.count⟩

theorem stays_attempt {α : Type} {p : DnsM B α} {P : α → Prop} (hp : Stays w name ip p P) :
    Stays w name ip (attempt p) fun r => ∀ a, r = .inr a → P a := by
  refine Prog.Keeps.handle (hp.bind fun a ha => ?_) fun e => ?_
  · exact Prog.keeps_pure fun b hb => Sum.inr.inj hb ▸ ha
  · cases e with
    | sync message => exact Prog.keeps_pure nofun
    | other => exact Prog.keeps_raise

/-- A call whose answer counts for nothing. -/
theorem stays_call {α : Type} {o : DnsOp} {k : o.Result B → DnsM B α} {P : α → Prop}
    (ho : o.changes = false) (hledger : ∀ us rs, o ≠ .updateLedger us rs)
    (hk : ∀ a, Stays w name ip (k a) P) : Stays w name ip (Prog.call o k) P :=
  Prog.keeps_call fun _ _ ht => ⟨before_after o ho hledger ht, hk _⟩

theorem stays_ask (o : DnsOp) (ho : o.changes = false) (hledger : ∀ us rs, o ≠ .updateLedger us rs) :
    Stays w name ip (ask B o) fun _ => True :=
  stays_call ho hledger fun a => Prog.keeps_pure (a := a) trivial

theorem stays_addRecord {source : Name → Source} {x : Name × Address} {acc : Delivered}
    (hx : x.1 = name → x.2 = ip) (hacc : acc.Leaves name ip) :
    Stays w name ip (addRecord source x acc) fun d => d.Leaves name ip := by
  refine Prog.Keeps.bind (stays_attempt (P := fun _ => True) ?_) fun r _ => ?_
  · refine Prog.keeps_call fun c t ht => ⟨before_add ht, Prog.keeps_ofExcept fun _ _ => trivial⟩
  · cases r with
    | inr _ =>
      refine Prog.keeps_pure ⟨fun u hu huname => ?_, hacc.removes⟩
      rcases List.mem_append.mp hu with hu | hu
      · exact hacc.upserts u hu huname
      · rw [List.mem_singleton] at hu
        subst hu
        exact hx huname
    | inl message => exact Prog.keeps_pure ⟨hacc.upserts, hacc.removes⟩

theorem stays_updateRecord {ledger : Map Name Address} {source : Name → Source} {x : Name × Address}
    {acc : Delivered} (hledger : ledger.get name = some ip) (hx : x.1 = name → x.2 = ip)
    (hacc : acc.Leaves name ip) :
    Stays w name ip (updateRecord ledger source x acc) fun d => d.Leaves name ip := by
  unfold updateRecord
  split
  · next old hold =>
    split_ifs with heq
    · exact stays_addRecord hx hacc
    · -- the name of the pair is not stale
      have hname : x.1 ≠ name := by
        intro hname
        rw [hname, hledger, Option.some.injEq] at hold
        exact heq (hold.symm.trans (hx hname).symm)
      refine Prog.Keeps.bind (stays_attempt (P := fun _ => True) ?_) fun r _ => ?_
      · exact Prog.keeps_call fun c t ht =>
          ⟨before_remove (fun h => absurd h hname) ht, Prog.keeps_ofExcept fun _ _ => trivial⟩
      · cases r with
        | inr _ =>
          refine stays_addRecord hx ⟨hacc.upserts, fun hmem => ?_⟩
          rcases List.mem_append.mp hmem with hmem | hmem
          · exact hacc.removes hmem
          · exact hname (List.mem_singleton.mp hmem).symm
        | inl message => exact Prog.keeps_pure ⟨hacc.upserts, hacc.removes⟩
  · exact stays_addRecord hx hacc

theorem stays_removeRecord {ledger : Map Name Address} {name' : Name} {acc : Delivered}
    (hname : name' ≠ name) (hacc : acc.Leaves name ip) :
    Stays w name ip (removeRecord ledger name' acc) fun d => d.Leaves name ip := by
  unfold removeRecord
  split
  · exact Prog.keeps_pure hacc
  · refine Prog.Keeps.bind (stays_attempt (P := fun _ => True) ?_) fun r _ => ?_
    · exact Prog.keeps_call fun c t ht =>
        ⟨before_remove (fun h => absurd h hname) ht, Prog.keeps_ofExcept fun _ _ => trivial⟩
    · cases r with
      | inr _ =>
        refine Prog.keeps_pure ⟨hacc.upserts, fun hmem => ?_⟩
        rcases List.mem_append.mp hmem with hmem | hmem
        · exact hacc.removes hmem
        · exact hname (List.mem_singleton.mp hmem).symm
      | inl message => exact Prog.keeps_pure ⟨hacc.upserts, hacc.removes⟩

/-- A plan that leaves the pair is delivered so. -/
theorem stays_applyPlan {plan : Plan} {ledger : Map Name Address} {source : Name → Source}
    (hplan : plan.Leaves name ip) (hledger : plan = {} ∨ ledger.get name = some ip) :
    Stays w name ip (applyPlan plan ledger source) fun d => d.Leaves name ip := by
  have hstart : ({} : Delivered).Leaves name ip := ⟨nofun, nofun⟩
  have hupdate : ∀ x ∈ plan.update, ledger.get name = some ip := by
    rcases hledger with rfl | hledger
    · exact nofun
    · exact fun _ _ => hledger
  refine Prog.Keeps.bind (Prog.Keeps.fold (P := fun acc => acc.Leaves name ip)
    (fun x hx acc hacc => ?_) hstart) fun acc hacc => ?_
  · exact stays_addRecord (hplan.add x hx) hacc
  refine Prog.Keeps.bind (Prog.Keeps.fold (P := fun acc => acc.Leaves name ip)
    (fun x hx acc hacc => ?_) hacc) fun acc hacc => ?_
  · exact stays_updateRecord (hupdate x hx) (hplan.update x hx) hacc
  refine Prog.Keeps.fold (fun name' hname' acc hacc => ?_) hacc
  exact stays_removeRecord (fun heq => hplan.remove (heq ▸ hname')) hacc

theorem stays_rowsForSubnets (source : Source) (subnets : List ℤ) :
    Stays w name ip (rowsForSubnets source subnets) fun rows =>
      rows = if subnets = [] then [] else (w.sources source).getD [] := by
  unfold rowsForSubnets
  split_ifs
  · exact Prog.keeps_pure rfl
  · refine Prog.keeps_call fun c t ht => ⟨before_after (.query source subnets) rfl nofun ht, Prog.keeps_pure ?_⟩
    exact congrArg (fun rows => Option.getD (rows source) []) ht.sources

theorem stays_desiredForTarget :
    Stays w name ip (desiredForTarget target) fun desired => desired = (desiredOf target w.sources).1 := by
  refine (stays_rowsForSubnets .lease _).bind ?_
  rintro _ rfl
  refine (stays_rowsForSubnets .reservation _).bind ?_
  rintro _ rfl
  refine (stays_rowsForSubnets .ipam _).bind ?_
  rintro _ rfl
  exact Prog.keeps_pure rfl

/-- What is planned leaves a pair that the ledger has and that is desired. -/
theorem leaves_planSync {remote : Map String String} (hdesired : (w.desired target).get name = some ip) :
    (planSync (w.desired target) w.held remote).Leaves name ip := by
  have honly : ∀ x ∈ (w.desired target).entries, x.1 = name → x.2 = ip := by
    rintro ⟨j, a⟩ hmem rfl
    exact Option.some.inj ((Map.mem_entries.mp hmem).symm.trans hdesired)
  unfold planSync
  refine ⟨fun x hx => ?_, fun x hx => ?_, fun hmem => ?_⟩
  · dsimp only at hx
    exact honly x (List.mem_filter.mp hx).1
  · dsimp only at hx
    exact honly x (List.mem_filter.mp hx).1
  · dsimp only at hmem
    have hnone := (List.mem_filter.mp hmem).2
    rw [hdesired] at hnone
    cases hnone

/-- What the plan of a run has to be, where the pair is held and desired. -/
def Planned.Leaves (planned : Planned) (name : Name) (ip : Address) : Prop :=
  planned.plan.Leaves name ip ∧ (planned.plan = {} ∨ planned.ledger.get name = some ip)

theorem stays_planForTarget (hheld : w.held.get name = some ip)
    (hdesired : (w.desired target).get name = some ip) :
    Stays w name ip (planForTarget target) fun planned => planned.Leaves name ip := by
  refine stays_desiredForTarget.bind ?_
  rintro _ rfl
  refine Prog.keeps_call fun c t ht => ⟨before_after .ledger rfl nofun ht, ?_⟩
  cases c with
  | ok =>
    have hledger : ((host (B := B)) .ledger .ok t).1 = some w.ledger := congrArg some ht.ledger
    rw [hledger]
    refine Prog.Keeps.bind (P := fun rows => rows = some w.ledger) (Prog.keeps_pure rfl) ?_
    rintro _ rfl
    refine Prog.Keeps.bind (stays_attempt (P := fun _ => True) ?_) fun r _ => ?_
    · exact stays_call rfl nofun fun _ => Prog.keeps_ofExcept fun _ _ => trivial
    · cases r with
      | inl message => exact Prog.keeps_pure ⟨leaves_planSync hdesired, .inr hheld⟩
      | inr records => exact Prog.keeps_pure ⟨leaves_planSync hdesired, .inr hheld⟩
  | fails executed e => exact Prog.keeps_pure ⟨⟨nofun, nofun, nofun⟩, .inl rfl⟩

theorem stays_report {summary alerted : String} {failed : Bool} :
    Stays w name ip (report summary alerted failed) fun _ => True := by
  refine (stays_ask (.recordResult summary) rfl nofun).bind fun _ _ => ?_
  cases failed with
  | false => exact Prog.keeps_pure (a := ()) trivial
  | true => exact stays_ask (.alert alerted) rfl nofun

theorem stays_logout {sid : Bool} : Stays w name ip (logout (B := B) sid) fun _ => True := by
  cases sid with
  | false => exact Prog.keeps_pure (a := ()) trivial
  | true =>
    refine Prog.Keeps.bind (stays_attempt (P := fun _ => True) ?_) fun _ _ =>
      Prog.keeps_pure (a := ()) trivial
    exact stays_call rfl nofun fun _ => Prog.keeps_ofExcept fun _ _ => trivial

theorem stays_remoteSession {α : Type} {body : DnsM B α} {P : α → Prop}
    (hbody : Stays w name ip body P) : Stays w name ip (remoteSession body) P := by
  unfold remoteSession
  split_ifs
  · refine stays_call rfl nofun fun r => ?_
    refine Prog.Keeps.bind (P := fun _ => True) (Prog.keeps_ofExcept fun _ _ => trivial) fun sid _ => ?_
    refine Prog.Keeps.bind (P := fun r => ∀ a, r = .ok a → P a) ?_ fun r hr => ?_
    · refine Prog.Keeps.handle (hbody.bind fun a ha => ?_) fun e => Prog.keeps_pure nofun
      exact Prog.keeps_pure fun b hb => Except.ok.inj hb ▸ ha
    · exact stays_logout.bind fun _ _ => Prog.keeps_ofExcept hr
  · exact hbody

/-- The part of a run before the ledger is written. -/
theorem stays_syncOnSession (hheld : w.held.get name = some ip)
    (hdesired : (w.desired target).get name = some ip) :
    Stays w name ip (syncOnSession target) fun r => ∀ d, r = some d → d.Leaves name ip := by
  refine (stays_planForTarget hheld hdesired).bind fun planned hplanned => ?_
  split_ifs
  · exact stays_report.bind fun _ _ => Prog.keeps_pure nofun
  · refine (stays_applyPlan hplanned.1 hplanned.2).bind fun d hd => ?_
    exact Prog.keeps_pure fun d' hd' => Option.some.inj hd' ▸ hd

/-- The pair is held, and its record stands as often. -/
def After (w : World B) (name : Name) (ip : Address) (t : World B) : Prop :=
  t.held.get name = some ip ∧ w.remote.count (B.record name ip) ≤ t.remote.count (B.record name ip)

theorem Before.after {t : World B} (h : Before w name ip t) (hheld : w.held.get name = some ip) :
    After w name ip t := by
  refine ⟨?_, h.count⟩
  rw [World.held, h.ledger]
  exact hheld

theorem after_ask (o : DnsOp) (ho : o.changes = false) (hledger : ∀ us rs, o ≠ .updateLedger us rs) :
    Prog.Keeps host (After w name ip) (ask B o) fun _ => True := by
  refine Prog.keeps_call fun c t ht => ⟨?_, Prog.keeps_pure trivial⟩
  cases o with
  | add | remove => cases ho
  | updateLedger us rs => exact absurd rfl (hledger us rs)
  | _ => exact ht

theorem after_report {summary alerted : String} {failed : Bool} :
    Prog.Keeps host (After w name ip) (report (B := B) summary alerted failed) fun _ => True := by
  refine (after_ask (.recordResult summary) rfl nofun).bind fun _ _ => ?_
  cases failed with
  | false => exact Prog.keeps_pure (a := ()) trivial
  | true => exact after_ask (.alert alerted) rfl nofun

/-- A ledger that is written with what leaves the pair has it. -/
theorem get_updated {ledger : Ledger} {d : Delivered} (hd : d.Leaves name ip)
    (h : (ledger.mapValues Prod.fst).get name = some ip) :
    ((ledger.updated d.upserts d.removes).mapValues Prod.fst).get name = some ip := by
  rw [Map.get_mapValues] at h ⊢
  rw [Ledger.updated, Map.get_putAll, Map.get_foldl_erase, if_neg hd.removes]
  cases hlast : (d.upserts.filter fun x => x.1 = name).getLast? with
  | none => exact h
  | some u =>
    obtain ⟨hu, hname⟩ := List.mem_filter.mp (List.mem_of_getLast? hlast)
    have hip := hd.upserts u hu (of_decide_eq_true hname)
    simp [hip]

/-- The ledger, written with what leaves the pair, has it. -/
theorem after_updateLedger {d : Delivered} (hd : d.Leaves name ip) :
    Prog.Keeps host (After w name ip) (updateLedger (B := B) d) fun _ => True := by
  unfold updateLedger
  split_ifs
  · exact Prog.keeps_pure trivial
  · refine Prog.keeps_call fun c t ht => ⟨?_, Prog.keeps_pure trivial⟩
    cases c with
    | ok => exact ⟨get_updated hd ht.1, ht.2⟩
    | fails executed e => exact ht

/-- Where the pair is held and desired, every run leaves it. -/
theorem after_sync (hheld : w.held.get name = some ip)
    (hdesired : (w.desired target).get name = some ip) (htarget : w.target = some target)
    (f : ℕ → Decision) : After w name ip (w.sync f) := by
  have hwp : (syncLocked (B := B)).wp host (fun _ => True) (fun _ t => After w name ip t)
      { w with log := [] } := by
    intro c
    refine ⟨trivial, ?_⟩
    have hstart : Before w name ip ((host (B := B) .target c { w with log := [] }).2) :=
      ⟨rfl, rfl, le_rfl⟩
    cases c with
    | fails executed e => exact hstart.after hheld
    | ok =>
      have hrow : ((host (B := B)) .target .ok { w with log := [] }).1 = .ok (some target) :=
        congrArg Except.ok htarget
      rw [hrow]
      refine (Prog.wp_bind (Prog.done (some target)) _ _).mpr ?_
      refine (Prog.wp_ite _ _ _ _).mpr ⟨fun _ => hstart.after hheld, fun _ => ?_⟩
      refine (Prog.wp_bind _ _ _).mpr (Prog.wp_mono ?_ (Prog.wp_forget
        (stays_attempt (stays_remoteSession (stays_syncOnSession hheld hdesired)) _ hstart)))
      have hkept : ∀ {p : DnsM B Unit}, Prog.Keeps host (After w name ip) p (fun _ => True) →
          ∀ t, Before w name ip t → p.wp host (fun _ => True) (fun _ u => After w name ip u) t :=
        fun hp t ht => Prog.wp_mono (fun _ _ h => h.1) (Prog.wp_forget (hp t (ht.after hheld)))
      rintro (e | message | d) t ⟨ht, hd⟩
      · exact ht.after hheld
      · exact hkept after_report t ht
      · cases d with
        | none => exact ht.after hheld
        | some d =>
          have hleaves : d.Leaves name ip := hd _ rfl _ rfl d rfl
          exact hkept ((after_updateLedger hleaves).bind fun _ _ => after_report) t ht
  exact (Prog.wp_sound hwp f).1

/-- What came from a source that cannot be read stays in every run just where the sources that can be read
ask for it, name and address. -/
theorem keepsUnread_iff (w : World B) :
    (∀ f, w.KeepsUnread f) ↔ ∀ target name ip source, w.target = some target →
      w.ledger.get name = some (ip, source) → w.Failing source →
        (w.desired target).get name = some ip := by
  constructor
  · intro h target name ip source htarget hrow hfailing
    have ⟨target', htarget', henabled, hpreviewed, _⟩ := hfailing
    obtain rfl : target = target' := Option.some.inj (htarget.symm.trans htarget')
    -- the run in which no call fails leaves the desired names in the ledger, and nothing else
    have hs := synced_syncOk htarget ⟨henabled, hpreviewed⟩
    have hkept : w.syncOk.held.get name = some ip := (h _ name ip source hrow hfailing).1
    rw [held_synced hs name] at hkept
    exact hkept
  · intro h f name ip source hrow hfailing
    have ⟨target, htarget, _⟩ := hfailing
    have hheld : w.held.get name = some ip := by
      rw [World.held, Map.get_mapValues, hrow]
      rfl
    exact after_sync hheld (h target name ip source htarget hrow hfailing) htarget f

/-- The storage box came from a reservation, and the reservations cannot be read. -/
def unreadWorld : World (adguard "lan") :=
  { nasWorld nasLedger [⟨"nas.lan", "10.0.0.5"⟩] with sources := fun _ => none }

/-- A run in which every other call succeeds takes the storage box out, of the ledger and of the server. -/
theorem not_keepsUnread_nas :
    ¬ unreadWorld.KeepsUnread (fun _ => .ok) ∧ (unreadWorld.sync fun _ => .ok).remote = [] := by
  refine ⟨fun h => ?_, by decide⟩
  have hfailing : unreadWorld.Failing .reservation :=
    ⟨nasTarget, rfl, rfl, rfl, by decide, rfl⟩
  have hkept := h nas nasAddress .reservation (by decide) hfailing
  exact absurd hkept.1 (by decide)

end Unread

end JenKea.Dns
