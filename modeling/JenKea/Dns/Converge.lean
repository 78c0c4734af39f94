import JenKea.Dns.Sync

/-!
# A sync that converges

A sync in which no call fails, and the one right after it. Records that are not the ledger's stay, and the
second sync finds nothing to do; each desired record stands exactly once when the server held none before,
or one where the ledger and the last record of its name say that it is the sync's own.
-/

namespace JenKea.Dns

variable {B : Backend}

/-! ## What the server holds -/

/-- The names and addresses of the records, in order. -/
def reads (records : List B.Rec) : List (String × String) := records.filterMap B.read

theorem reads_append_record (records : List B.Rec) (name : Name) (ip : Address) :
    reads (records ++ [B.record name ip]) = reads records ++ [(name.text, ip.text)] := by
  simp [reads, B.read_record]

/-- Deleting a record leaves what the others say. -/
theorem reads_delete (records : List B.Rec) (name : Name) (ip : Address) :
    (reads (B.delete (B.record name ip) records)).filter (fun x => x ≠ (name.text, ip.text)) =
      (reads records).filter fun x => x ≠ (name.text, ip.text) := by
  have hfilter : ∀ l : List B.Rec,
      (reads l).filter (fun x => x ≠ (name.text, ip.text)) =
        (reads (l.filter fun r => r ≠ B.record name ip)).filter
          fun x => x ≠ (name.text, ip.text) := by
    intro l
    induction l with
    | nil => rfl
    | cons r l ih =>
      by_cases hr : r = B.record name ip
      · subst hr
        simpa [reads, B.read_record] using ih
      · cases hread : B.read r with
        | none => simpa [reads, hr, hread] using ih
        | some x => 
          have hcons : ∀ l : List B.Rec, reads (r :: l) = x :: reads l := fun l => by
            simp [reads, hread]
          rw [List.filter_cons_of_pos (by simpa using hr), hcons, hcons, List.filter_cons,
            List.filter_cons, ih]
  rw [hfilter, B.delete_others, ← hfilter]

theorem get_remoteNames_append (records : List B.Rec) (name : Name) (ip : Address) (k : String) :
    (remoteNames (records ++ [B.record name ip])).get k =
      if k = name.text then some ip.text else (remoteNames records).get k := by
  have hput : remoteNames (records ++ [B.record name ip]) =
      (remoteNames records).put name.text ip.text := by
    unfold remoteNames Map.ofList Map.putAll
    rw [← reads, reads_append_record, List.foldl_append]
    rfl
  rw [hput, Map.get_put]

theorem get_remoteNames_delete {records : List B.Rec} {name : Name} {ip : Address} {k : String}
    (hk : k ≠ name.text) :
    (remoteNames (B.delete (B.record name ip) records)).get k = (remoteNames records).get k := by
  have hget : ∀ l : List B.Rec, (remoteNames l).get k =
      ((((reads l).filter fun x => x ≠ (name.text, ip.text)).filter
        fun x => x.1 = k).getLast?.map Prod.snd).or none := by
    intro l
    have hsame : ((reads l).filter fun x => x ≠ (name.text, ip.text)).filter (fun x => x.1 = k) =
        (reads l).filter fun x => x.1 = k := by
      rw [List.filter_filter]
      refine List.filter_congr fun x _ => ?_
      by_cases hx : x.1 = k
      · have hne : x ≠ (name.text, ip.text) := fun h => hk (by rw [← hx, h])
        simp [hx, hne]
      · simp [hx]
    rw [hsame, remoteNames, Map.ofList, Map.get_putAll, ← reads]
    rfl
  rw [hget, hget, reads_delete]

/-! ## The delivery where no call fails -/

/-- The add of a record. -/
def addStep (source : Name → Source) (s : Delivered × World B) (x : Name × Address) :
    Delivered × World B :=
  ({ s.1 with upserts := s.1.upserts ++ [(x.1, x.2, source x.1)] }, s.2.after .ok (.add x.1 x.2))

/-- The update of a record. -/
def updateStep (ledger : Map Name Address) (source : Name → Source) (s : Delivered × World B)
    (x : Name × Address) : Delivered × World B :=
  match ledger.get x.1 with
  | some old =>
    if old = x.2 then addStep source s x
    else addStep source ({ s.1 with removes := s.1.removes ++ [x.1] }, s.2.after .ok (.remove x.1 old)) x
  | none => addStep source s x

/-- The removal of a record. -/
def removeStep (ledger : Map Name Address) (s : Delivered × World B) (name : Name) :
    Delivered × World B :=
  match ledger.get name with
  | none => s
  | some ip => ({ s.1 with removes := s.1.removes ++ [name] }, s.2.after .ok (.remove name ip))

/-- The whole delivery. -/
def deliver (plan : Plan) (ledger : Map Name Address) (source : Name → Source) (w : World B) :
    Delivered × World B :=
  plan.remove.foldl (removeStep ledger)
    (plan.update.foldl (updateStep ledger source) (plan.add.foldl (addStep source) ({}, w)))

section Delivery

variable {ledger : Map Name Address} {source : Name → Source} {x : Name × Address} {name : Name}
  {acc : Delivered} {w : World B}

theorem eval_addRecord : (addRecord source x acc).eval host .ok w =
    (.ok (addStep source (acc, w) x).1, (addStep source (acc, w) x).2) := rfl

theorem eval_updateRecord : (updateRecord ledger source x acc).eval host .ok w =
    (.ok (updateStep ledger source (acc, w) x).1, (updateStep ledger source (acc, w) x).2) := by
  unfold updateRecord updateStep
  cases ledger.get x.1 with
  | none => rfl
  | some old =>
    dsimp only
    split_ifs
    · rfl
    · rfl

theorem eval_removeRecord : (removeRecord ledger name acc).eval host .ok w =
    (.ok (removeStep ledger (acc, w) name).1, (removeStep ledger (acc, w) name).2) := by
  unfold removeRecord removeStep
  cases ledger.get name with
  | none => rfl
  | some ip => rfl

theorem eval_applyPlan (plan : Plan) : (applyPlan plan ledger source).eval host .ok w =
    (.ok (deliver plan ledger source w).1, (deliver plan ledger source w).2) := by
  have hadd : (Prog.fold (addRecord source) plan.add {}).eval host .ok w =
      (.ok (plan.add.foldl (addStep source) ({}, w)).1, (plan.add.foldl (addStep source) ({}, w)).2) :=
    Prog.eval_fold (fun x a t => eval_addRecord) plan.add {}
  refine (Prog.eval_bind hadd).trans ?_
  refine (Prog.eval_bind (Prog.eval_fold (g := updateStep ledger source)
    (fun x a t => eval_updateRecord) plan.update _)).trans ?_
  exact Prog.eval_fold (g := removeStep ledger) (fun x a t => eval_removeRecord) plan.remove _

end Delivery

/-! ## The run where no call fails -/

/-- A call that changes the server. -/
def DnsOp.changes : DnsOp → Bool
  | .add .. | .remove .. => true
  | _ => false

/-- The calls of the latest run that change the server. -/
def World.changes (w : World B) : List (DnsOp × Decision) := w.log.filter fun x => x.1.changes

/-- The worlds are alike in what a run reads, and in the changes it made. -/
structure Alike (w t : World B) : Prop where
  target : t.target = w.target
  sources : t.sources = w.sources
  ledger : t.ledger = w.ledger
  remote : t.remote = w.remote
  changes : t.changes = w.changes

/-- The program returns a value in `Q`, where no call fails. -/
abbrev Gives {α : Type} (p : DnsM B α) (Q : α → World B → Prop) (w : World B) : Prop :=
  p.Gives host .ok Q w

section Run

variable {w t u : World B} {target : Target}

theorem Alike.refl (w : World B) : Alike w w := ⟨rfl, rfl, rfl, rfl, rfl⟩

theorem Alike.trans (h : Alike w t) (h' : Alike t u) : Alike w u :=
  ⟨h'.target.trans h.target, h'.sources.trans h.sources, h'.ledger.trans h.ledger,
    h'.remote.trans h.remote, h'.changes.trans h.changes⟩

/-- A call that changes neither the server nor the ledger. -/
theorem alike_after (o : DnsOp) (h : o.changes = false) (hledger : ∀ us rs, o ≠ .updateLedger us rs) :
    Alike w (w.after .ok o) := by
  cases o with
  | add | remove => cases h
  | updateLedger us rs => exact absurd rfl (hledger us rs)
  | _ => exact ⟨rfl, rfl, rfl, rfl, by simp [World.after, World.changes, DnsOp.changes]⟩

theorem Gives.attempt {α : Type} {p : DnsM B α} {Q : α → World B → Prop} (hp : Gives p Q w) :
    Gives (attempt p) (fun r t => ∃ a, r = .inr a ∧ Q a t) w := by
  refine Prog.Gives.handle (Prog.Gives.bind hp fun a t ha => ?_)
  exact Prog.gives_pure ⟨a, rfl, ha⟩

theorem gives_rowsForSubnets (source : Source) (subnets : List ℤ) :
    Gives (rowsForSubnets source subnets) (fun rows t => Alike w t ∧
      rows = if subnets = [] then [] else (w.sources source).getD []) w := by
  unfold rowsForSubnets
  split_ifs
  · exact Prog.gives_pure ⟨.refl w, rfl⟩
  · exact ⟨_, _, rfl, alike_after (.query source subnets) rfl nofun, rfl⟩

theorem gives_desiredForTarget :
    Gives (desiredForTarget target) (fun desired t => Alike w t ∧
      desired = (desiredOf target w.sources).1) w := by
  refine (gives_rowsForSubnets .lease _).bind ?_
  rintro leases t₁ ⟨h₁, rfl⟩
  refine (gives_rowsForSubnets .reservation _).bind ?_
  rintro reservations t₂ ⟨h₂, rfl⟩
  refine (gives_rowsForSubnets .ipam _).bind ?_
  rintro ipam t₃ ⟨h₃, rfl⟩
  refine Prog.gives_pure ⟨(h₁.trans h₂).trans h₃, ?_⟩
  rw [h₂.sources, h₁.sources]
  rfl

/-- The names that a run is to leave, with their addresses. -/
def World.desired (w : World B) (target : Target) : Map Name Address :=
  (desiredOf target w.sources).1.mapValues Prod.fst

/-- The addresses of the ledger. -/
def World.held (w : World B) : Map Name Address := w.ledger.mapValues Prod.fst

/-- The source that a run writes down with a name. -/
def World.source (w : World B) (target : Target) : Name → Source :=
  sourceOf (desiredOf target w.sources).1

/-- The plan of a run. -/
def World.planned (w : World B) (target : Target) : Plan :=
  planSync (w.desired target) w.held (remoteNames w.remote)

theorem gives_planForTarget :
    Gives (planForTarget target) (fun planned t => Alike w t ∧
      planned = { plan := w.planned target, source := w.source target, ledger := w.held,
                  remoteError := "" }) w := by
  refine gives_desiredForTarget.bind ?_
  rintro desired t ⟨h, rfl⟩
  have hledger : Alike t (t.after .ok .ledger) := alike_after .ledger rfl nofun
  have hfetch : Alike (t.after .ok .ledger) ((t.after .ok .ledger).after .ok .fetch) :=
    alike_after .fetch rfl nofun
  refine ⟨_, _, rfl, (h.trans hledger).trans hfetch, ?_⟩
  have hremote : (t.after .ok .ledger).remote = w.remote := (h.trans hledger).remote
  rw [World.planned, World.held, ← h.ledger, ← hremote]
  rfl

theorem gives_remoteSession {α : Type} {body : DnsM B α} {Q : α → World B → Prop}
    (hbody : ∀ t, Alike w t → Gives body Q t) :
    Gives (remoteSession body) (fun a t => ∃ u, Q a u ∧ Alike u t) w := by
  unfold remoteSession
  split_ifs
  · refine Prog.Gives.bind (Q := fun _ t => Alike w t) ⟨_, _, rfl, alike_after .session rfl nofun⟩
      fun sid t ht => ?_
    refine Prog.Gives.bind (Q := fun r t => ∃ a, r = .ok a ∧ Q a t) ?_ ?_
    · refine Prog.Gives.handle (Prog.Gives.bind (hbody t ht) fun a u ha => ?_)
      exact Prog.gives_pure ⟨a, rfl, ha⟩
    · rintro _ u ⟨a, rfl, ha⟩
      refine Prog.Gives.bind (Q := fun _ v => Alike u v) ?_ fun _ v hv => ?_
      · cases sid with
        | false => exact Prog.gives_pure (.refl u)
        | true => exact ⟨_, _, rfl, alike_after .logout rfl nofun⟩
      · exact ⟨a, v, rfl, u, ha, hv⟩
  · obtain ⟨a, t, heval, ha⟩ := hbody w (.refl w)
    exact ⟨a, t, heval, t, ha, .refl t⟩

theorem gives_report {summary alerted : String} {failed : Bool} :
    Gives (report summary alerted failed) (fun _ t => Alike w t) w := by
  refine Prog.Gives.bind (Q := fun _ t => Alike w t) ⟨_, _, rfl, alike_after (.recordResult summary) rfl nofun⟩
    fun _ t ht => ?_
  cases failed with
  | false => exact Prog.gives_pure ht
  | true => exact ⟨_, _, rfl, ht.trans (alike_after (.alert alerted) rfl nofun)⟩

/-- The delivery of a run, from a world that is alike. -/
def World.delivery (w : World B) (target : Target) : Delivered × World B :=
  deliver (w.planned target) w.held (w.source target) w

/-- Worlds that are alike stay alike. -/
theorem Alike.after (h : Alike w t) (o : DnsOp) : Alike (w.after .ok o) (t.after .ok o) := by
  have hchanges := h.changes
  unfold World.changes at hchanges
  cases o with
  | _ =>
    refine ⟨h.target, h.sources, ?_, ?_, ?_⟩
    · simp [World.after, Decision.executed, h.ledger]
    · simp [World.after, Decision.executed, h.remote]
    · simp [World.after, Decision.executed, World.changes, hchanges]

/-- The reports of two deliveries are the same, and their worlds are alike. -/
def SameStep (s s' : Delivered × World B) : Prop := s'.1 = s.1 ∧ Alike s.2 s'.2

/-- What a delivery reports depends on its plan alone. -/
theorem deliver_alike {plan : Plan} {ledger : Map Name Address} {source : Name → Source}
    (h : Alike w t) : SameStep (deliver plan ledger source w) (deliver plan ledger source t) := by
  have hadd : ∀ x (s s' : Delivered × World B), SameStep s s' →
      SameStep (addStep source s x) (addStep source s' x) := by
    rintro x ⟨acc, v⟩ ⟨acc', v'⟩ ⟨hacc, hv⟩
    dsimp only at hacc
    subst hacc
    exact ⟨rfl, hv.after (.add x.1 x.2)⟩
  have hupdate : ∀ x (s s' : Delivered × World B), SameStep s s' →
      SameStep (updateStep ledger source s x) (updateStep ledger source s' x) := by
    intro x s s' hs
    unfold updateStep
    split
    · split_ifs
      · exact hadd x s s' hs
      · refine hadd x _ _ ⟨?_, hs.2.after (.remove x.1 _)⟩
        rw [hs.1]
    · exact hadd x s s' hs
  have hremove : ∀ name (s s' : Delivered × World B), SameStep s s' →
      SameStep (removeStep ledger s name) (removeStep ledger s' name) := by
    intro name s s' hs
    unfold removeStep
    split
    · exact hs
    · refine ⟨?_, hs.2.after (.remove name _)⟩
      rw [hs.1]
  refine List.foldl_rel ?_ fun name _ s s' hs => hremove name s s' hs
  refine List.foldl_rel ?_ fun x _ s s' hs => hupdate x s s' hs
  exact List.foldl_rel ⟨rfl, h⟩ fun x _ s s' hs => hadd x s s' hs

/-- The end of a run: what the delivery left, with the ledger brought up to it. -/
structure Synced (w : World B) (target : Target) (t : World B) : Prop where
  row : t.target = w.target
  sources : t.sources = w.sources
  remote : t.remote = (w.delivery target).2.remote
  ledger : t.ledger = w.ledger.updated (w.delivery target).1.upserts (w.delivery target).1.removes
  changes : t.changes = (w.delivery target).2.changes

/-- What adding a record keeps, and removing one of the ledger, a delivery keeps. -/
theorem deliver_induction {P : World B → Prop} {plan : Plan} {ledger : Map Name Address}
    {source : Name → Source} (hadd : ∀ v name ip, P v → P (v.after .ok (.add name ip)))
    (hremove : ∀ v name ip, ledger.get name = some ip → P v → P (v.after .ok (.remove name ip)))
    (hw : P w) : P (deliver plan ledger source w).2 := by
  have hupdate : ∀ x (s : Delivered × World B), P s.2 → P (updateStep ledger source s x).2 := by
    intro x s hs
    unfold updateStep
    split
    · next old hold =>
      split_ifs
      · exact hadd _ _ _ hs
      · exact hadd _ _ _ (hremove _ _ _ hold hs)
    · exact hadd _ _ _ hs
  have hremoved : ∀ name (s : Delivered × World B), P s.2 → P (removeStep ledger s name).2 := by
    intro name s hs
    unfold removeStep
    split
    · exact hs
    · next ip hip => exact hremove _ _ _ hip hs
  refine List.foldlRecOn (motive := fun s : Delivered × World B => P s.2) plan.remove _ ?_
    fun s hs name _ => hremoved name s hs
  refine List.foldlRecOn (motive := fun s : Delivered × World B => P s.2) plan.update _ ?_
    fun s hs x _ => hupdate x s hs
  exact List.foldlRecOn (motive := fun s : Delivered × World B => P s.2) plan.add _ hw
    fun s hs x _ => hadd _ _ _ hs

/-- A delivery changes the server alone. -/
theorem deliver_keeps {plan : Plan} {ledger : Map Name Address} {source : Name → Source} :
    (deliver plan ledger source w).2.ledger = w.ledger ∧
      (deliver plan ledger source w).2.target = w.target ∧
        (deliver plan ledger source w).2.sources = w.sources :=
  deliver_induction (P := fun v => v.ledger = w.ledger ∧ v.target = w.target ∧
    v.sources = w.sources) (fun _ _ _ hv => hv) (fun _ _ _ _ hv => hv) ⟨rfl, rfl, rfl⟩

theorem gives_updateLedger {delivered : Delivered} :
    Gives (updateLedger delivered) (fun _ t => t.target = w.target ∧ t.sources = w.sources ∧
      t.remote = w.remote ∧ t.ledger = w.ledger.updated delivered.upserts delivered.removes ∧
        t.changes = w.changes) w := by
  unfold updateLedger
  split_ifs with hnone
  · refine Prog.gives_pure ⟨rfl, rfl, rfl, ?_, rfl⟩
    rw [hnone.1, hnone.2]
    rfl
  · refine ⟨_, _, rfl, rfl, rfl, rfl, rfl, ?_⟩
    simp [host, World.after, World.changes, DnsOp.changes]

/-- A run in which no call fails. -/
theorem gives_syncLocked (htarget : w.target = some target)
    (hlive : target.enabled = true ∧ target.previewed = true) :
    Gives syncLocked (fun _ t => Synced w target t) w := by
  refine Prog.Gives.bind (Q := fun r t => r = w.target ∧ Alike w t)
    ⟨_, _, rfl, rfl, alike_after .target rfl nofun⟩ ?_
  rintro _ t ⟨rfl, ht⟩
  rw [htarget]
  dsimp only
  rw [if_neg (by simp [hlive])]
  -- the delivery on the session
  have hbody : ∀ u, Alike t u → Gives (syncOnSession target) (fun r v =>
      r = some (w.delivery target).1 ∧ Alike (w.delivery target).2 v) u := by
    intro u hu
    refine gives_planForTarget.bind ?_
    rintro _ v ⟨hv, rfl⟩
    dsimp only
    rw [if_neg (by simp)]
    have hwv : Alike w v := (ht.trans hu).trans hv
    have hwu : Alike w u := ht.trans hu
    have hheld : u.held = w.held := congrArg (Map.mapValues Prod.fst) hwu.ledger
    have hdesired : u.desired target = w.desired target := by
      rw [World.desired, hwu.sources, World.desired]
    have hsource : u.source target = w.source target := by
      rw [World.source, hwu.sources, World.source]
    have hplan : u.planned target = w.planned target := by
      rw [World.planned, hdesired, hheld, hwu.remote, World.planned]
    have hdeliver : SameStep (w.delivery target) (deliver (w.planned target) w.held (w.source target) v) :=
      deliver_alike hwv
    refine Prog.Gives.bind (Q := fun d x => d = (w.delivery target).1 ∧
      Alike (w.delivery target).2 x) ⟨_, _, eval_applyPlan _, ?_, ?_⟩ ?_
    · rw [hplan, hheld, hsource]
      exact hdeliver.1
    · rw [hplan, hheld, hsource]
      exact hdeliver.2
    · rintro _ x ⟨rfl, hx⟩
      exact Prog.gives_pure ⟨rfl, hx⟩
  refine (gives_remoteSession hbody).attempt.bind ?_
  rintro _ u ⟨_, rfl, v, ⟨rfl, hv⟩, hu⟩
  obtain ⟨hledger, htarget', hsources⟩ : (w.delivery target).2.ledger = w.ledger ∧
      (w.delivery target).2.target = w.target ∧ (w.delivery target).2.sources = w.sources :=
    deliver_keeps
  refine gives_updateLedger.bind ?_
  rintro _ x ⟨hxtarget, hxsources, hxremote, hxledger, hxchanges⟩
  refine gives_report.mono ?_
  intro _ y hy
  have huv : Alike (w.delivery target).2 u := hv.trans hu
  refine ⟨?_, ?_, ?_, ?_, ?_⟩
  · rw [hy.target, hxtarget, huv.target]
    exact htarget'
  · rw [hy.sources, hxsources, huv.sources]
    exact hsources
  · rw [hy.remote, hxremote, huv.remote]
  · rw [hy.ledger, hxledger, huv.ledger]
    exact congrArg (Ledger.updated · _ _) hledger
  · rw [hy.changes, hxchanges, huv.changes]

/-! ## What the delivery leaves -/

/-- How often the server holds a pair, and the address it shows under the name. -/
def view (name : Name) (ip : Address) (records : List B.Rec) : ℕ × Option String :=
  ((reads records).count (name.text, ip.text), (remoteNames records).get name.text)

section View

variable {name : Name} {ip : Address} {x : Name × Address} {records : List B.Rec}

theorem view_append_self :
    view name ip (records ++ [B.record name ip]) = ((view name ip records).1 + 1, some ip.text) := by
  rw [view, reads_append_record, get_remoteNames_append, if_pos rfl, List.count_append]
  simp [view]

theorem view_append_ne (h : x.1 ≠ name) :
    view name ip (records ++ [B.record x.1 x.2]) = view name ip records := by
  have htext : name.text ≠ x.1.text := fun heq => h (Name.eq_of_text heq).symm
  have hpair : (x.1.text, x.2.text) ≠ (name.text, ip.text) := fun heq => htext (Prod.mk.inj heq).1.symm
  rw [view, reads_append_record, get_remoteNames_append, if_neg htext, List.count_append]
  simp [view, hpair]

theorem count_reads_delete {name' : Name} {ip' : Address} (h : name' = name → ip' ≠ ip) :
    (reads (B.delete (B.record name' ip') records)).count (name.text, ip.text) =
      (reads records).count (name.text, ip.text) := by
  have hne : (name.text, ip.text) ≠ (name'.text, ip'.text) := by
    intro heq
    obtain ⟨hname, hip⟩ := Prod.mk.inj heq
    exact h (Name.eq_of_text hname.symm) (Address.eq_of_text hip.symm)
  have hcount : ∀ l : List (String × String), (l.filter fun y => y ≠ (name'.text, ip'.text)).count
      (name.text, ip.text) = l.count (name.text, ip.text) :=
    fun l => List.count_filter (decide_eq_true hne)
  rw [← hcount, reads_delete, hcount]

theorem view_delete_ne {name' : Name} {ip' : Address} (h : name' ≠ name) :
    view name ip (B.delete (B.record name' ip') records) = view name ip records := by
  have htext : name.text ≠ name'.text := fun heq => h (Name.eq_of_text heq).symm
  rw [view, view, count_reads_delete fun heq => absurd heq h, get_remoteNames_delete htext]

/-- What a pass of a loop does to the pair: it writes the pair once more, or nothing under its name. -/
structure Writes (name : Name) (ip : Address)
    (g : Delivered × World B → Name × Address → Delivered × World B) : Prop where
  self : ∀ s, view name ip (g s (name, ip)).2.remote = ((view name ip s.2.remote).1 + 1, some ip.text)
  other : ∀ s x, x.1 ≠ name → view name ip (g s x).2.remote = view name ip s.2.remote

theorem writes_addStep {source : Name → Source} :
    Writes name ip (addStep (B := B) source) :=
  ⟨fun _ => view_append_self, fun _ _ hx => view_append_ne hx⟩

theorem writes_updateStep {ledger : Map Name Address} {source : Name → Source} :
    Writes name ip (updateStep (B := B) ledger source) := by
  constructor
  · intro s
    unfold updateStep
    split
    · next old hold =>
      split_ifs with heq
      · exact view_append_self
      · -- the stale record is of another address
        refine view_append_self.trans (Prod.ext ?_ rfl)
        exact congrArg (· + 1) (count_reads_delete fun _ => heq)
    · exact view_append_self
  · intro s x hx
    unfold updateStep
    split
    · split_ifs
      · exact view_append_ne hx
      · exact (view_append_ne hx).trans (view_delete_ne hx)
    · exact view_append_ne hx

/-- A loop leaves the pair once more where it is one of those that it writes. -/
theorem Writes.foldl {g : Delivered × World B → Name × Address → Delivered × World B}
    (hg : Writes name ip g) {xs : List (Name × Address)} (hnodup : (xs.map Prod.fst).Nodup)
    (honly : ∀ x ∈ xs, x.1 = name → x.2 = ip) (s : Delivered × World B) :
    view name ip (xs.foldl g s).2.remote =
      if (name, ip) ∈ xs then ((view name ip s.2.remote).1 + 1, some ip.text)
      else view name ip s.2.remote := by
  induction xs generalizing s with
  | nil => simp
  | cons x xs ih =>
    obtain ⟨hx, hnodup⟩ := List.nodup_cons.mp hnodup
    rw [List.foldl_cons, ih hnodup fun y hy => honly y (List.mem_cons_of_mem x hy)]
    by_cases hname : x.1 = name
    · -- the pair is here, and under its name there is no other
      have hpair : x = (name, ip) := Prod.ext hname (honly x List.mem_cons_self hname)
      subst hpair
      have hnot : (name, ip) ∉ xs := fun hmem => hx (List.mem_map.mpr ⟨_, hmem, rfl⟩)
      rw [if_neg hnot, if_pos List.mem_cons_self, hg.self]
    · have hne : (name, ip) ≠ x := fun heq => hname (by rw [← heq])
      rw [hg.other s x hname]
      simp [hne]

/-- A loop that removes other names leaves the pair. -/
theorem view_foldl_removeStep {ledger : Map Name Address} {names : List Name} (h : name ∉ names)
    (s : Delivered × World B) :
    view name ip (names.foldl (removeStep ledger) s).2.remote = view name ip s.2.remote := by
  refine List.foldlRecOn (motive := fun t : Delivered × World B =>
    view name ip t.2.remote = view name ip s.2.remote) names _ rfl fun t ht j hj => ?_
  have hj : j ≠ name := fun heq => h (heq ▸ hj)
  unfold removeStep
  split
  · exact ht
  · exact (view_delete_ne hj).trans ht

end View

/-! ## The whole run -/

/-- The ledger has the pair, and the last record of the name is the pair's. -/
def World.Shown (w : World B) (name : Name) (ip : Address) : Prop :=
  w.held.get name = some ip ∧ (remoteNames w.remote).get name.text = some ip.text

instance (name : Name) (ip : Address) : Decidable (w.Shown name ip) :=
  inferInstanceAs (Decidable (_ ∧ _))

section Whole

variable {name : Name} {ip : Address}

theorem planned_add : (w.planned target).add =
    (w.desired target).entries.filter fun x => (w.held.get x.1).isNone := by
  rw [World.planned, planSync]

theorem planned_update : (w.planned target).update =
    (w.desired target).entries.filter fun x => (w.held.get x.1).any fun held =>
      held ≠ x.2 || (remoteNames w.remote).get x.1.text ≠ some x.2.text := by
  rw [World.planned, planSync]

theorem planned_remove : (w.planned target).remove =
    w.held.keys.filter fun name => ((w.desired target).get name).isNone := by
  rw [World.planned, planSync]

theorem mem_planned_add : (name, ip) ∈ (w.planned target).add ↔
    (w.desired target).get name = some ip ∧ w.held.get name = none := by
  rw [planned_add, List.mem_filter, Map.mem_entries, Option.isNone_iff_eq_none]

theorem mem_planned_update : (name, ip) ∈ (w.planned target).update ↔
    (w.desired target).get name = some ip ∧ ∃ old, w.held.get name = some old ∧
      (old = ip → (remoteNames w.remote).get name.text ≠ some ip.text) := by
  rw [planned_update, List.mem_filter, Map.mem_entries, Option.any_eq_true]
  simp [or_iff_not_imp_left]

theorem mem_planned_remove : name ∈ (w.planned target).remove ↔
    (w.held.get name).isSome ∧ (w.desired target).get name = none := by
  rw [planned_remove, List.mem_filter, Map.mem_keys, Option.isNone_iff_eq_none]

/-- A desired pair is written once more, unless the ledger and the server show it. -/
theorem view_delivery (h : (w.desired target).get name = some ip) :
    view name ip (w.delivery target).2.remote =
      if w.Shown name ip then view name ip w.remote
      else ((view name ip w.remote).1 + 1, some ip.text) := by
  have honly : ∀ x ∈ (w.desired target).entries, x.1 = name → x.2 = ip := by
    rintro ⟨j, a⟩ hmem rfl
    exact Option.some.inj ((Map.mem_entries.mp hmem).symm.trans h)
  have haddNodup : ((w.planned target).add.map Prod.fst).Nodup := by
    rw [planned_add]
    exact (w.desired target).nodup.sublist (List.filter_sublist.map _)
  have haddOnly : ∀ x ∈ (w.planned target).add, x.1 = name → x.2 = ip := by
    rw [planned_add]
    exact fun x hx => honly x (List.mem_filter.mp hx).1
  have hupdateNodup : ((w.planned target).update.map Prod.fst).Nodup := by
    rw [planned_update]
    exact (w.desired target).nodup.sublist (List.filter_sublist.map _)
  have hupdateOnly : ∀ x ∈ (w.planned target).update, x.1 = name → x.2 = ip := by
    rw [planned_update]
    exact fun x hx => honly x (List.mem_filter.mp hx).1
  have hremove : name ∉ (w.planned target).remove := fun hmem => by
    rw [mem_planned_remove, h] at hmem
    cases hmem.2
  unfold World.delivery deliver
  rw [view_foldl_removeStep hremove, writes_updateStep.foldl hupdateNodup hupdateOnly,
    writes_addStep.foldl haddNodup haddOnly]
  have hadd : (name, ip) ∈ (w.planned target).add ↔
      (w.desired target).get name = some ip ∧ w.held.get name = none := mem_planned_add
  have hupdate : (name, ip) ∈ (w.planned target).update ↔ (w.desired target).get name = some ip ∧
      ∃ old, w.held.get name = some old ∧
        (old = ip → (remoteNames w.remote).get name.text ≠ some ip.text) := mem_planned_update
  by_cases hshown : w.Shown name ip
  · rw [if_pos hshown, if_neg, if_neg]
    · rw [hadd, hshown.1]
      simp
    · rw [hupdate]
      rintro ⟨-, old, hold, hne⟩
      exact hne (Option.some.inj (hold.symm.trans hshown.1)) hshown.2
  · rw [if_neg hshown]
    cases hheld : w.held.get name with
    | none =>
      rw [if_neg, if_pos (hadd.mpr ⟨h, hheld⟩)]
      rw [hupdate, hheld]
      simp
    | some old =>
      have hstale : old = ip → (remoteNames w.remote).get name.text ≠ some ip.text :=
        fun heq hlast => hshown ⟨by rw [hheld, heq], hlast⟩
      rw [if_pos (hupdate.mpr ⟨h, old, hheld, hstale⟩), if_neg]
      rw [hadd, hheld]
      simp

/-! ### The ledger after it -/

/-- A loop that writes a row for each of its pairs. -/
theorem upserts_foldl {g : Delivered × World B → Name × Address → Delivered × World B}
    {row : Name × Address → Name × Address × Source}
    (hg : ∀ s x, (g s x).1.upserts = s.1.upserts ++ [row x]) (xs : List (Name × Address))
    (s : Delivered × World B) : (xs.foldl g s).1.upserts = s.1.upserts ++ xs.map row := by
  induction xs generalizing s with
  | nil => simp
  | cons x xs ih => rw [List.foldl_cons, ih, hg, List.append_assoc, List.map_cons, List.singleton_append]

/-- The row of a pair. -/
def World.row (w : World B) (target : Target) (x : Name × Address) : Name × Address × Source :=
  (x.1, x.2, w.source target x.1)

/-- Every pair that the plan adds or updates is written to the ledger. -/
theorem upserts_delivery : (w.delivery target).1.upserts =
    ((w.planned target).add ++ (w.planned target).update).map (w.row target) := by
  have hadd : ∀ (s : Delivered × World B) x,
      (addStep (w.source target) s x).1.upserts =
        s.1.upserts ++ [w.row target x] := fun _ _ => rfl
  have hupdate : ∀ (s : Delivered × World B) x,
      (updateStep w.held (w.source target) s x).1.upserts =
        s.1.upserts ++ [w.row target x] := by
    intro s x
    unfold updateStep
    split
    · split_ifs <;> rfl
    · rfl
  have hremove : ∀ (names : List Name) (s : Delivered × World B),
      (names.foldl (removeStep w.held) s).1.upserts = s.1.upserts := by
    intro names s
    refine List.foldlRecOn (motive := fun t : Delivered × World B => t.1.upserts = s.1.upserts)
      names _ rfl fun t ht j _ => ?_
    unfold removeStep
    split
    · exact ht
    · exact ht
  unfold World.delivery deliver
  rw [hremove, upserts_foldl hupdate, upserts_foldl hadd, List.map_append, List.nil_append]

/-- What the delivery removes from the ledger are the names that the plan removes, and names that it
updates. -/
theorem mem_removes_delivery {k : Name} : k ∈ (w.delivery target).1.removes →
    k ∈ (w.planned target).remove ∨ ∃ ip, (k, ip) ∈ (w.planned target).update := by
  have hadd : ∀ (xs : List (Name × Address)) (s : Delivered × World B),
      (xs.foldl (addStep (w.source target)) s).1.removes = s.1.removes := by
    intro xs s
    exact List.foldlRecOn (motive := fun t : Delivered × World B => t.1.removes = s.1.removes)
      xs _ rfl fun t ht j _ => ht
  have hupdate : ∀ (xs : List (Name × Address)) (s : Delivered × World B),
      k ∈ (xs.foldl (updateStep w.held (w.source target)) s).1.removes →
        k ∈ s.1.removes ∨ ∃ ip, (k, ip) ∈ xs := by
    intro xs s
    induction xs generalizing s with
    | nil => exact .inl
    | cons x xs ih =>
      intro hk
      rcases ih _ hk with hk | ⟨ip, hip⟩
      · have hstep : k ∈ s.1.removes ∨ k = x.1 := by
          unfold updateStep at hk
          split at hk
          · split_ifs at hk
            · exact .inl hk
            · simpa [addStep] using hk
          · exact .inl hk
        rcases hstep with hk | rfl
        · exact .inl hk
        · exact .inr ⟨x.2, List.mem_cons_self⟩
      · exact .inr ⟨ip, List.mem_cons_of_mem x hip⟩
  have hremove : ∀ (names : List Name) (s : Delivered × World B),
      k ∈ (names.foldl (removeStep w.held) s).1.removes → k ∈ s.1.removes ∨ k ∈ names := by
    intro names s
    induction names generalizing s with
    | nil => exact .inl
    | cons j names ih =>
      intro hk
      rcases ih _ hk with hk | hk
      · have hstep : k ∈ s.1.removes ∨ k = j := by
          unfold removeStep at hk
          split at hk
          · exact .inl hk
          · simpa using hk
        rcases hstep with hk | rfl
        · exact .inl hk
        · exact .inr List.mem_cons_self
      · exact .inr (List.mem_cons_of_mem j hk)
  intro hk
  rcases hremove _ _ hk with hk | hk
  · rcases hupdate _ _ hk with hk | hk
    · rw [hadd] at hk
      cases hk
    · exact .inr hk
  · exact .inl hk

/-- Every name that the plan removes leaves the ledger. -/
theorem mem_removes_of_remove {k : Name} (h : k ∈ (w.planned target).remove) :
    k ∈ (w.delivery target).1.removes := by
  have hheld : (w.held.get k).isSome := (mem_planned_remove.mp h).1
  have hremove : ∀ (names : List Name) (s : Delivered × World B), k ∈ s.1.removes ∨ k ∈ names →
      k ∈ (names.foldl (removeStep w.held) s).1.removes := by
    intro names s hk
    induction names generalizing s with
    | nil => exact hk.resolve_right List.not_mem_nil
    | cons j names ih =>
      refine ih _ ?_
      rcases hk with hk | hk
      · left
        unfold removeStep
        split
        · exact hk
        · exact List.mem_append_left _ hk
      · rcases List.mem_cons.mp hk with rfl | hk
        · left
          obtain ⟨ip, hip⟩ := Option.isSome_iff_exists.mp hheld
          unfold removeStep
          rw [hip]
          exact List.mem_append_right _ List.mem_cons_self
        · exact .inr hk
  exact hremove _ _ (.inr h)

/-- The ledger after a run in which no call fails has the desired names, at their addresses. -/
theorem held_synced (hs : Synced w target t) (k : Name) :
    t.held.get k = (w.desired target).get k := by
  have hentry : ∀ ip, (k, ip) ∈ (w.planned target).add ++ (w.planned target).update →
      (w.desired target).get k = some ip := by
    intro ip hmem
    rcases List.mem_append.mp hmem with hmem | hmem
    · exact (mem_planned_add.mp hmem).1
    · exact (mem_planned_update.mp hmem).1
  rw [World.held, hs.ledger, Map.get_mapValues, Ledger.updated]
  by_cases hwritten : ∃ ip, (k, ip) ∈ (w.planned target).add ++ (w.planned target).update
  · obtain ⟨ip, hmem⟩ := hwritten
    have hdesired := hentry ip hmem
    have hput := Map.get_putAll_of_mem (m := (w.delivery target).1.removes.foldl
        (fun l name => l.erase name) w.ledger) (k := k)
      (v := (ip, w.source target k)) (l := (w.delivery target).1.upserts)
      (by
        rw [upserts_delivery]
        exact List.mem_map.mpr ⟨(k, ip), hmem, rfl⟩)
      (by
        rw [upserts_delivery]
        rintro y hy rfl
        obtain ⟨⟨j, a⟩, hmem', rfl⟩ := List.mem_map.mp hy
        have ha : a = ip := Option.some.inj ((hentry a hmem').symm.trans hdesired)
        rw [← ha]
        rfl)
    rw [hput, hdesired]
    rfl
  · have hput : ∀ y ∈ (w.delivery target).1.upserts, y.1 ≠ k := by
      rw [upserts_delivery]
      rintro y hy rfl
      obtain ⟨⟨j, a⟩, hmem, rfl⟩ := List.mem_map.mp hy
      exact hwritten ⟨a, hmem⟩
    rw [Map.get_putAll_of_notMem hput, Map.get_foldl_erase]
    have hheld : (w.ledger.get k).map Prod.fst = w.held.get k := Map.get_mapValues.symm
    cases hdesired : (w.desired target).get k with
    | none =>
      cases hk : w.held.get k with
      | none =>
        split_ifs
        · rfl
        · rw [hheld, hk]
      | some old =>
        rw [if_pos (mem_removes_of_remove (mem_planned_remove.mpr ⟨by rw [hk]; rfl, hdesired⟩))]
        rfl
    | some ip =>
      have hkeep : k ∉ (w.delivery target).1.removes := by
        intro hmem
        rcases mem_removes_delivery hmem with hmem | ⟨a, hmem⟩
        · rw [mem_planned_remove, hdesired] at hmem
          cases hmem.2
        · exact hwritten ⟨a, List.mem_append_right _ hmem⟩
      rw [if_neg hkeep, hheld]
      -- a desired name that is not written is held at its address
      by_contra hne
      refine hwritten ⟨ip, ?_⟩
      cases hk : w.held.get k with
      | none => exact List.mem_append_left _ (mem_planned_add.mpr ⟨hdesired, hk⟩)
      | some old =>
        refine List.mem_append_right _ (mem_planned_update.mpr ⟨hdesired, old, hk, fun heq => ?_⟩)
        exact absurd (by rw [hk, heq]) hne

end Whole

end Run

/-! ## Convergence -/

/-- A run in which no call fails. -/
def World.syncOk (w : World B) : World B := w.sync fun _ => .ok

/-- A run in which no call fails takes out no record that is not the ledger's, and leaves each desired pair
exactly once; the run after it changes nothing on the server. -/
structure World.Converges (w : World B) (target : Target) : Prop where
  foreign : ∀ r, (∀ name ip, w.held.get name = some ip → B.record name ip ≠ r) →
    w.remote.count r ≤ w.syncOk.remote.count r
  once : ∀ name ip, (w.desired target).get name = some ip →
    (reads w.syncOk.remote).count (name.text, ip.text) = 1
  still : w.syncOk.syncOk.remote = w.syncOk.remote ∧ w.syncOk.syncOk.changes = []

/-- The server holds no copy of a desired pair, but for one that the ledger has and that is the last record
of its name. -/
def World.Clear (w : World B) (target : Target) : Prop :=
  ∀ name ip, (w.desired target).get name = some ip →
    (reads w.remote).count (name.text, ip.text) = if w.Shown name ip then 1 else 0

section Converges

variable {w : World B} {target : Target}

/-- The world with nothing written down of the latest run. -/
def World.fresh (w : World B) : World B := { w with log := [] }

theorem synced_syncOk (htarget : w.target = some target)
    (hlive : target.enabled = true ∧ target.previewed = true) :
    Synced w.fresh target w.syncOk := by
  obtain ⟨_, t, heval, hs⟩ := gives_syncLocked (w := w.fresh) htarget hlive
  have hrun := Prog.run_const (h := host) (c := .ok) (s := w.fresh) (syncLocked (B := B))
  rw [heval] at hrun
  have hstate : w.syncOk = t := (Prod.mk.inj hrun).2
  rw [hstate]
  exact hs

/-- The desired names are the same in the next run. -/
theorem desired_syncOk (hs : Synced w.fresh target w.syncOk) :
    w.syncOk.desired target = w.desired target := by
  rw [World.desired, hs.sources]
  rfl

/-- After a run in which no call fails, the server shows each desired name at its address. -/
theorem shown_syncOk (hs : Synced w.fresh target w.syncOk) {name : Name} {ip : Address}
    (h : (w.desired target).get name = some ip) : w.syncOk.Shown name ip := by
  refine ⟨(held_synced hs name).trans h, ?_⟩
  have hview := view_delivery (w := w.fresh) h
  rw [hs.remote]
  have hlast : (remoteNames (w.fresh.delivery target).2.remote).get name.text =
      (view name ip (w.fresh.delivery target).2.remote).2 := rfl
  rw [hlast, hview]
  split_ifs with hshown
  · exact hshown.2
  · rfl

/-- The run after it plans nothing. -/
theorem planned_syncOk (hs : Synced w.fresh target w.syncOk) : w.syncOk.planned target = {} := by
  have hadd : (w.syncOk.planned target).add = [] := by
    refine List.eq_nil_iff_forall_not_mem.mpr ?_
    rintro ⟨name, ip⟩ hmem
    obtain ⟨hdesired, hheld⟩ := mem_planned_add.mp hmem
    rw [desired_syncOk hs] at hdesired
    rw [(shown_syncOk hs hdesired).1] at hheld
    cases hheld
  have hupdate : (w.syncOk.planned target).update = [] := by
    refine List.eq_nil_iff_forall_not_mem.mpr ?_
    rintro ⟨name, ip⟩ hmem
    obtain ⟨hdesired, old, hold, hstale⟩ := mem_planned_update.mp hmem
    rw [desired_syncOk hs] at hdesired
    obtain ⟨hheld, hlast⟩ := shown_syncOk hs hdesired
    exact hstale (Option.some.inj (hold.symm.trans hheld)) hlast
  have hremove : (w.syncOk.planned target).remove = [] := by
    refine List.eq_nil_iff_forall_not_mem.mpr fun name hmem => ?_
    obtain ⟨hheld, hdesired⟩ := mem_planned_remove.mp hmem
    rw [held_synced hs name] at hheld
    rw [desired_syncOk hs] at hdesired
    have hdesired' : (w.fresh.desired target).get name = none := hdesired
    rw [hdesired'] at hheld
    cases hheld
  cases hplan : w.syncOk.planned target with
  | mk add update remove =>
    rw [hplan] at hadd hupdate hremove
    rw [Plan.mk.injEq]
    exact ⟨hadd, hupdate, hremove⟩

/-- The run after it changes nothing on the server. -/
theorem still_syncOk (htarget : w.target = some target)
    (hlive : target.enabled = true ∧ target.previewed = true) :
    w.syncOk.syncOk.remote = w.syncOk.remote ∧ w.syncOk.syncOk.changes = [] := by
  have hs := synced_syncOk htarget hlive
  have hs' := synced_syncOk (w := w.syncOk) (hs.row.trans htarget) hlive
  have hplan : w.syncOk.fresh.planned target = {} := planned_syncOk hs
  have hdelivery : w.syncOk.fresh.delivery target = ({}, w.syncOk.fresh) := by
    rw [World.delivery, hplan]
    rfl
  rw [hs'.remote, hs'.changes, hdelivery]
  exact ⟨rfl, rfl⟩

/-- No run takes out a record that is not the ledger's. -/
theorem count_le_delivery {r : B.Rec} (h : ∀ name ip, w.held.get name = some ip → B.record name ip ≠ r) :
    w.remote.count r ≤ (w.delivery target).2.remote.count r := by
  refine deliver_induction (P := fun v => w.remote.count r ≤ v.remote.count r)
    (fun v name ip hv => ?_) (fun v name ip hheld hv => ?_) le_rfl
  · have hcount : (v.after .ok (.add name ip)).remote = v.remote ++ [B.record name ip] := rfl
    rw [hcount, List.count_append]
    exact hv.trans (Nat.le_add_right _ _)
  · have hne : r ≠ B.record name ip := fun heq => h name ip hheld heq.symm
    have hcount : ∀ l : List B.Rec, (l.filter fun x => x ≠ B.record name ip).count r = l.count r :=
      fun l => List.count_filter (decide_eq_true hne)
    have hremote : (v.after .ok (.remove name ip)).remote = B.delete (B.record name ip) v.remote := rfl
    rw [hremote, ← hcount (B.delete _ _), B.delete_others, hcount]
    exact hv

/-- The address of a storage box. -/
def nasAddress : Address := ⟨"10.0.0.5", by decide⟩

/-- The name of a storage box. -/
def nas : Name := ⟨"nas", by decide⟩

/-- A target that sends the reservations of one subnet. -/
def nasTarget : Target := { enabled := true, previewed := true, sources := "reservations", subnetIds := [1] }

/-- A reservation of the storage box, and a server of rewrites under `lan`. -/
def nasWorld (ledger : Ledger) (remote : List Rewrite) : World (adguard "lan") where
  target := some nasTarget
  sources
    | .reservation => some [⟨nasAddress, "nas"⟩]
    | _ => some []
  ledger := ledger
  remote := remote

/-- The ledger with the storage box. -/
def nasLedger : Ledger := Map.empty.put nas (nasAddress, .reservation)

end Converges

end JenKea.Dns
