import JenKea.Dns.Converge

/-!
# The ledger and the server

The ledger is written once, after the whole delivery, with what the server confirmed. So it follows the
server over runs in which no add is executed without its reply, unless the ledger has the pair, and nothing
unexpected ends a run that added something new.
-/

namespace JenKea.Dns

variable {B : Backend}

/-- Each record of the server that Jen added is in the ledger, and each row of the ledger was confirmed. -/
structure World.Owned (w : World B) : Prop where
  held : ∀ name ip, (name, ip) ∈ w.added → B.record name ip ∈ w.remote → w.held.get name = some ip
  confirmed : ∀ name ip, w.held.get name = some ip → (name, ip) ∈ w.confirmed

/-- A call whose failure is raised. -/
def DnsOp.raises : DnsOp → Bool
  | .target | .session | .logout | .fetch | .add .. | .remove .. => true
  | _ => false

/-- An add of the log is executed, of a pair that the ledger did not have. -/
def AddsNew (held : Map Name Address) (log : List (DnsOp × Decision)) (c : Decision) : Prop :=
  c.executed = true ∧ ∃ name ip, (.add name ip, c) ∈ log ∧ held.get name ≠ some ip

/-- Every new pair that the server took was confirmed, nothing unexpected was raised in a run with one, and
the ledger was written. -/
structure Confirmed (held : Map Name Address) (log : List (DnsOp × Decision)) : Prop where
  answered : ∀ c, AddsNew held log c → c = .ok
  whole : ∀ c, AddsNew held log c → ∀ o executed, o.raises = true → (o, .fails executed .other) ∉ log
  written : ∀ upserts removes c, (.updateLedger upserts removes, c) ∈ log → c = .ok

/-! ## Runs -/

/-- What happens to a target: a sync, or a change of its row, of its sources and of the server by someone
else. -/
inductive Act (B : Backend) where
  | sync (f : ℕ → Decision)
  | change (target : Option Target) (sources : Source → Option (List Candidate)) (remote : List B.Rec)
      (password : Bool)

/-- The world after it. -/
def World.act (w : World B) : Act B → World B
  | .sync f => w.sync f
  | .change target sources remote password => { w with target, sources, remote, password }

/-- A sync of the world is as `Confirmed` says. -/
def World.Meets (w : World B) : Act B → Prop
  | .sync f => Confirmed w.held (w.sync f).log
  | .change .. => True

/-- Each act of a history meets the condition in the world where it is made. -/
def World.AllMeet (w : World B) : List (Act B) → Prop
  | [] => True
  | a :: acts => w.Meets a ∧ (w.act a).AllMeet acts

/-- The worlds of a history. -/
def World.states (w : World B) : List (Act B) → List (World B)
  | [] => [w]
  | a :: acts => w :: (w.act a).states acts

/-! ## What a ledger says of a world -/

/-- What Jen added and did not take out is in the map, and what the map has was confirmed. -/
structure Follows (m : Map Name Address) (t : World B) : Prop where
  added : ∀ name ip, (name, ip) ∈ t.added → m.get name = some ip
  confirmed : ∀ name ip, m.get name = some ip → (name, ip) ∈ t.confirmed

theorem Follows.owned {w : World B} (h : Follows w.held w) : w.Owned :=
  ⟨fun name ip hadded _ => h.added name ip hadded, h.confirmed⟩

/-- The ledger, written with what was delivered. -/
def Delivered.written (d : Delivered) (ledger : Ledger) : Map Name Address :=
  (ledger.updated d.upserts d.removes).mapValues Prod.fst

section Written

variable {d : Delivered} {ledger : Ledger} {k : Name}

/-- A name that was not delivered is as it was. -/
theorem get_written (hupserts : ∀ u ∈ d.upserts, u.1 ≠ k) (hremoves : k ∉ d.removes) :
    (d.written ledger).get k = (ledger.mapValues Prod.fst).get k := by
  rw [Delivered.written, Map.get_mapValues, Map.get_mapValues, Ledger.updated,
    Map.get_putAll_of_notMem hupserts, Map.get_foldl_erase, if_neg hremoves]

/-- One more pair. -/
theorem get_written_upsert {name : Name} {ip : Address} {source : Source} {errors : List String} :
    (Delivered.written ⟨d.upserts ++ [(name, ip, source)], d.removes, errors⟩ ledger).get k =
      if k = name then some ip else (d.written ledger).get k := by
  have hput : Ledger.updated ledger (d.upserts ++ [(name, ip, source)]) d.removes =
      (Ledger.updated ledger d.upserts d.removes).put name (ip, source) := by
    rw [Ledger.updated, Map.putAll, List.foldl_append]
    rfl
  rw [Delivered.written, hput, Map.get_mapValues, Map.get_put, Delivered.written, Map.get_mapValues]
  split_ifs <;> rfl

/-- One name less. -/
theorem get_written_remove {name : Name} {errors : List String}
    (hupserts : ∀ u ∈ d.upserts, u.1 ≠ name) :
    (Delivered.written ⟨d.upserts, d.removes ++ [name], errors⟩ ledger).get k =
      if k = name then none else (d.written ledger).get k := by
  have herase : (d.removes ++ [name]).foldl (fun l j => l.erase j) ledger =
      (d.removes.foldl (fun l j => l.erase j) ledger).erase name := by
    rw [List.foldl_append]
    rfl
  rw [Delivered.written, Delivered.written, Map.get_mapValues, Map.get_mapValues, Ledger.updated,
    Ledger.updated, herase, Map.get_putAll, Map.get_putAll, Map.get_erase]
  split_ifs with hk
  · subst hk
    have hnone : (d.upserts.filter fun x => x.1 = k) = [] := by simpa using hupserts
    rw [hnone]
    rfl
  · rfl

end Written

/-! ## One run -/

section Run

variable {w t : World B} {rest : List Name} {acc : Delivered}

@[simp] theorem log_after (o : DnsOp) (c : Decision) : (t.after c o).log = t.log ++ [(o, c)] := by
  cases o with
  | add | remove | updateLedger =>
    unfold World.after
    dsimp only
    split_ifs <;> rfl
  | _ => rfl

section Frame

variable {c : Decision} {name : Name} {ip : Address}

theorem ledger_after (o : DnsOp) (ho : ∀ us rs, o ≠ .updateLedger us rs) :
    (t.after c o).ledger = t.ledger := by
  cases o with
  | updateLedger us rs => exact absurd rfl (ho us rs)
  | add | remove =>
    unfold World.after
    dsimp only
    split_ifs <;> rfl
  | _ => rfl

theorem added_after_add : (t.after c (.add name ip)).added =
    if c.executed then t.added ++ [(name, ip)] else t.added := by
  unfold World.after
  dsimp only
  split_ifs <;> rfl

theorem added_after_remove : (t.after c (.remove name ip)).added =
    if c.executed then t.added.filter fun x => x ≠ (name, ip) else t.added := by
  unfold World.after
  dsimp only
  split_ifs <;> rfl

theorem confirmed_after_add : (t.after c (.add name ip)).confirmed =
    if c = .ok then t.confirmed ++ [(name, ip)] else t.confirmed := by
  unfold World.after
  dsimp only
  split_ifs <;> rfl

theorem confirmed_after_remove : (t.after c (.remove name ip)).confirmed = t.confirmed := by
  unfold World.after
  dsimp only
  split_ifs <;> rfl

end Frame

/-- The world before the ledger is written: what is there was added before the run or in it. -/
structure Base (w t : World B) : Prop where
  ledger : t.ledger = w.ledger
  added : ∀ name ip, (name, ip) ∈ t.added →
    (name, ip) ∈ w.added ∨ ∃ c : Decision, c.executed = true ∧ (.add name ip, c) ∈ t.log
  confirmed : ∀ x ∈ w.confirmed, x ∈ t.confirmed

/-- The new pairs of a shorter log were confirmed too. -/
theorem answered_of_append {held : Map Name Address} {log : List (DnsOp × Decision)}
    {x : DnsOp × Decision} (h : ∀ c, AddsNew held (log ++ [x]) c → c = .ok) :
    ∀ c, AddsNew held log c → c = .ok := by
  rintro c ⟨hexecuted, name, ip, hmem, hnew⟩
  exact h c ⟨hexecuted, name, ip, List.mem_append_left _ hmem, hnew⟩

/-- No call but the writing of the ledger leaves what `Base` says. -/
theorem base_after (o : DnsOp) (c : Decision) (ho : ∀ us rs, o ≠ .updateLedger us rs)
    (h : Base w t) : Base w (t.after c o) := by
  have hold : ∀ name ip, (name, ip) ∈ t.added → (name, ip) ∈ w.added ∨
      ∃ c' : Decision, c'.executed = true ∧ (.add name ip, c') ∈ (t.after c o).log := by
    intro name ip hmem
    refine (h.added name ip hmem).imp id fun ⟨c', hexecuted, hlog⟩ => ⟨c', hexecuted, ?_⟩
    rw [log_after]
    exact List.mem_append_left _ hlog
  refine ⟨(ledger_after o ho).trans h.ledger, fun name ip hmem => ?_, fun x hx => ?_⟩
  · cases o with
    | add name' ip' =>
      rw [added_after_add] at hmem
      split_ifs at hmem with hexecuted
      · rcases List.mem_append.mp hmem with hmem | hmem
        · exact hold name ip hmem
        · obtain ⟨rfl, rfl⟩ := Prod.mk.inj (List.mem_singleton.mp hmem)
          exact .inr ⟨c, hexecuted, by simp⟩
      · exact hold name ip hmem
    | remove name' ip' =>
      rw [added_after_remove] at hmem
      split_ifs at hmem
      · exact hold name ip (List.mem_of_mem_filter hmem)
      · exact hold name ip hmem
    | updateLedger us rs => exact absurd rfl (ho us rs)
    | _ => exact hold name ip hmem
  · cases o with
    | add name' ip' =>
      rw [confirmed_after_add]
      split_ifs
      · exact List.mem_append_left _ (h.confirmed x hx)
      · exact h.confirmed x hx
    | remove name' ip' =>
      rw [confirmed_after_remove]
      exact h.confirmed x hx
    | updateLedger us rs => exact absurd rfl (ho us rs)
    | _ => exact h.confirmed x hx

/-- The delivery so far: the ledger, if it were written now, would follow the server, and the names of
`rest` are still to come. -/
structure Underway (w : World B) (acc : Delivered) (rest : List Name) (t : World B) : Prop where
  base : Base w t
  follows : (∀ c, AddsNew w.held t.log c → c = .ok) → Follows (acc.written w.ledger) t
  upserts : ∀ u ∈ acc.upserts, u.1 ∉ rest
  removes : ∀ k ∈ acc.removes, k ∉ rest

/-- The run ends with an exception that nobody expected. -/
def Broken (w : World B) (e : Exc) (t : World B) : Prop :=
  e = .other ∧ Base w t ∧ ∃ o executed, o.raises = true ∧ (o, .fails executed .other) ∈ t.log

/-- Where a part of the run ends: in `P`, or broken. -/
def Outcome {α : Type} (w : World B) (P : α → World B → Prop) : Except Exc α → World B → Prop
  | .ok a, t => P a t
  | .error e, t => Broken w e t

theorem Underway.get_of_mem (h : Underway w acc rest t) {k : Name} (hk : k ∈ rest) :
    (acc.written w.ledger).get k = w.held.get k :=
  get_written (fun u hu heq => h.upserts u hu (heq ▸ hk)) fun hmem => h.removes k hmem hk

/-- What a failed call is for the plugin: its text, or an exception. -/
def Decision.caught {α : Type} (a : α) : Decision → Except Exc (String ⊕ α)
  | .ok => .ok (.inr a)
  | .fails _ (.sync message) => .ok (.inl message)
  | .fails _ .other => .error .other

/-- A call that is tried. -/
theorem wp_attempt_call {o : DnsOp} {α : Type} {f : o.Result B → Except Exc α} {a : α}
    {Q : Except Exc (String ⊕ α) → World B → Prop}
    (hreply : ∀ c, f (t.answer c o) = c.reply a) (hQ : ∀ c, Q (c.caught a) (t.after c o)) :
    (attempt (Prog.call o fun r => .ofExcept (f r) : DnsM B α)).wp host (fun _ => True) Q t := by
  intro c
  refine ⟨trivial, ?_⟩
  have hreply' : f (host o c t).1 = c.reply a := hreply c
  have hc := hQ c
  cases c with
  | ok =>
    dsimp only
    rw [hreply']
    exact hc
  | fails executed e =>
    dsimp only
    rw [hreply']
    cases e with
    | sync message => exact hc
    | other => exact hc

theorem broken_after (o : DnsOp) {executed : Bool} (ho : o.raises = true) (h : Base w t) :
    Broken w .other (t.after (.fails executed .other) o) := by
  refine ⟨rfl, base_after o _ (fun us rs heq => ?_) h, o, executed, ho, by simp⟩
  rw [heq] at ho
  cases ho

/-- An add, where the ledger, written now, has no other address of the name, and has the pair if it had it
before. -/
theorem wp_addRecord {source : Name → Source} {x : Name × Address} (h : Underway w acc rest t)
    (hx : x.1 ∉ rest) (hother : ∀ a, (acc.written w.ledger).get x.1 = some a → a = x.2)
    (hkept : w.held.get x.1 = some x.2 → (acc.written w.ledger).get x.1 = some x.2) :
    (addRecord source x acc).wp host (fun _ => True) (Outcome w fun d => Underway w d rest) t := by
  refine (Prog.wp_bind _ _ _).mpr (wp_attempt_call (fun _ => rfl) fun c => ?_)
  have hbase : Base w (t.after c (.add x.1 x.2)) := base_after _ c (by rintro _ _ ⟨⟩) h.base
  cases c with
  | ok =>
    refine ⟨hbase, fun hanswered => ?_, fun u hu => ?_, h.removes⟩
    · rw [log_after] at hanswered
      have hfollows := h.follows (answered_of_append hanswered)
      refine ⟨fun name ip hmem => ?_, fun name ip hget => ?_⟩
      · rw [get_written_upsert]
        rw [added_after_add, if_pos (by rfl : Decision.ok.executed = true)] at hmem
        rcases List.mem_append.mp hmem with hmem | hmem
        · have hget := hfollows.added name ip hmem
          split_ifs with hname
          · rw [hname] at hget
            rw [hother ip hget]
          · exact hget
        · obtain ⟨rfl, rfl⟩ := Prod.mk.inj (List.mem_singleton.mp hmem)
          rw [if_pos rfl]
      · rw [get_written_upsert] at hget
        rw [confirmed_after_add, if_pos rfl]
        split_ifs at hget with hname
        · obtain rfl := Option.some.inj hget
          exact List.mem_append_right _ (by rw [hname]; exact List.mem_cons_self)
        · exact List.mem_append_left _ (hfollows.confirmed name ip hget)
    · rcases List.mem_append.mp hu with hu | hu
      · exact h.upserts u hu
      · rw [List.mem_singleton.mp hu]
        exact hx
  | fails executed e =>
    cases e with
    | other => exact broken_after (.add x.1 x.2) rfl h.base
    | sync message =>
      refine ⟨hbase, fun hanswered => ?_, h.upserts, h.removes⟩
      have hnew := hanswered (.fails executed (.sync message))
      rw [log_after] at hanswered
      have hfollows := h.follows (answered_of_append hanswered)
      refine ⟨fun name ip hmem => ?_, fun name ip hget => ?_⟩
      · rw [added_after_add] at hmem
        split_ifs at hmem with hexecuted
        · rcases List.mem_append.mp hmem with hmem | hmem
          · exact hfollows.added name ip hmem
          · -- an add without its reply is one of a pair that the ledger had
            obtain ⟨rfl, rfl⟩ := Prod.mk.inj (List.mem_singleton.mp hmem)
            refine hkept ?_
            by_contra hheld
            exact absurd (hnew ⟨hexecuted, x.1, x.2, by simp, hheld⟩) (by rintro ⟨⟩)
        · exact hfollows.added name ip hmem
      · rw [confirmed_after_add, if_neg (by rintro ⟨⟩)]
        exact hfollows.confirmed name ip hget

theorem Underway.of_cons {name : Name} (h : Underway w acc (name :: rest) t) : Underway w acc rest t :=
  ⟨h.base, h.follows, fun u hu hmem => h.upserts u hu (List.mem_cons_of_mem name hmem),
    fun k hk hmem => h.removes k hk (List.mem_cons_of_mem name hmem)⟩

/-- What only takes out pairs leaves the ledger right. -/
theorem Follows.mono {m : Map Name Address} {u : World B} (h : Follows m t)
    (hadded : ∀ x ∈ u.added, x ∈ t.added) (hconfirmed : u.confirmed = t.confirmed) : Follows m u :=
  ⟨fun name ip hmem => h.added name ip (hadded _ hmem), fun name ip hget =>
    hconfirmed ▸ h.confirmed name ip hget⟩

/-- A removal, confirmed, of the pair that the ledger has. -/
theorem Underway.removed {name : Name} {old : Address} {errors : List String}
    (h : Underway w acc (name :: rest) t) (hname : name ∉ rest) (hold : w.held.get name = some old) :
    Underway w ⟨acc.upserts, acc.removes ++ [name], errors⟩ rest (t.after .ok (.remove name old)) := by
  have hupserts : ∀ u ∈ acc.upserts, u.1 ≠ name := fun u hu heq =>
    h.upserts u hu (heq ▸ List.mem_cons_self)
  refine ⟨base_after _ _ nofun h.base, fun hanswered => ?_, h.of_cons.upserts, fun k hk => ?_⟩
  · rw [log_after] at hanswered
    have hfollows := h.follows (answered_of_append hanswered)
    refine ⟨fun name' ip hmem => ?_, fun name' ip hget => ?_⟩
    · rw [added_after_remove, if_pos (by rfl : Decision.ok.executed = true)] at hmem
      obtain ⟨hmem, hne⟩ := List.mem_filter.mp hmem
      have hget := hfollows.added name' ip hmem
      rw [get_written_remove hupserts, if_neg]
      · exact hget
      · -- the name has no other address than the one that was taken out
        rintro rfl
        rw [h.get_of_mem List.mem_cons_self, hold, Option.some.injEq] at hget
        exact of_decide_eq_true hne (by rw [hget])
    · rw [get_written_remove hupserts] at hget
      rw [confirmed_after_remove]
      split_ifs at hget
      exact hfollows.confirmed name' ip hget
  · rcases List.mem_append.mp hk with hk | hk
    · exact h.of_cons.removes k hk
    · rw [List.mem_singleton.mp hk]
      exact hname

/-- A removal that failed, executed or not. -/
theorem Underway.unanswered {name : Name} {old : Address} {c : Decision} {errors : List String}
    (h : Underway w acc (name :: rest) t) :
    Underway w ⟨acc.upserts, acc.removes, errors⟩ rest (t.after c (.remove name old)) := by
  refine ⟨base_after _ _ nofun h.base, fun hanswered => ?_, h.of_cons.upserts, h.of_cons.removes⟩
  rw [log_after] at hanswered
  refine (h.follows (answered_of_append hanswered)).mono (fun x hx => ?_) confirmed_after_remove
  rw [added_after_remove] at hx
  split_ifs at hx
  · exact List.mem_of_mem_filter hx
  · exact hx

theorem wp_removeRecord {name : Name} (h : Underway w acc (name :: rest) t) (hname : name ∉ rest) :
    (removeRecord w.held name acc).wp host (fun _ => True) (Outcome w fun d => Underway w d rest) t := by
  unfold removeRecord
  split
  · exact h.of_cons
  · next old hold =>
    refine (Prog.wp_bind _ _ _).mpr (wp_attempt_call (fun _ => rfl) fun c => ?_)
    cases c with
    | ok => exact h.removed hname hold
    | fails executed e =>
      cases e with
      | sync message => exact h.unanswered
      | other => exact broken_after (.remove name old) rfl h.base

theorem wp_updateRecord {source : Name → Source} {x : Name × Address}
    (h : Underway w acc (x.1 :: rest) t) (hname : x.1 ∉ rest) :
    (updateRecord w.held source x acc).wp host (fun _ => True) (Outcome w fun d => Underway w d rest)
      t := by
  have hget := h.get_of_mem List.mem_cons_self
  have hadd : (∀ old, w.held.get x.1 = some old → old = x.2) →
      (addRecord source x acc).wp host (fun _ => True) (Outcome w fun d => Underway w d rest) t := by
    intro hsame
    refine wp_addRecord h.of_cons hname (fun a ha => hsame a (hget.symm.trans ha)) fun hheld => ?_
    exact hget.trans hheld
  unfold updateRecord
  split
  · next old hold =>
    split_ifs with heq
    · exact hadd fun old' hold' => (Option.some.inj (hold'.symm.trans hold)).trans heq
    · refine (Prog.wp_bind _ _ _).mpr (wp_attempt_call (fun _ => rfl) fun c => ?_)
      cases c with
      | fails executed e =>
        cases e with
        | sync message => exact h.unanswered
        | other => exact broken_after (.remove x.1 old) rfl h.base
      | ok =>
        -- the name is out of the ledger as it would be written, and is added at its new address
        have hupserts : ∀ u ∈ acc.upserts, u.1 ≠ x.1 := fun u hu heq' =>
          h.upserts u hu (heq' ▸ List.mem_cons_self)
        have hnone : (Delivered.written ⟨acc.upserts, acc.removes ++ [x.1], acc.errors⟩ w.ledger).get
            x.1 = none := by
          rw [get_written_remove hupserts, if_pos rfl]
        refine wp_addRecord (h.removed hname hold) hname (fun a ha => ?_) fun hheld => ?_
        · rw [hnone] at ha
          cases ha
        · exact absurd (Option.some.inj (hold.symm.trans hheld)) heq
  · next hnone =>
    refine hadd fun old hold => ?_
    rw [hnone] at hold
    cases hold

/-- The names of a plan, in the order of its delivery. -/
def Plan.names (plan : Plan) : List Name :=
  plan.add.map Prod.fst ++ (plan.update.map Prod.fst ++ plan.remove)

/-- A plan that names each name once, and adds only names that the ledger does not have. -/
structure Plan.Apart (plan : Plan) (held : Map Name Address) : Prop where
  nodup : plan.names.Nodup
  add : ∀ x ∈ plan.add, held.get x.1 = none

theorem apart_planSync {desired held : Map Name Address} {remote : Map String String} :
    (planSync desired held remote).Apart held := by
  have hadd : ∀ x ∈ (planSync desired held remote).add, held.get x.1 = none := fun x hx =>
    Option.isNone_iff_eq_none.mp (List.mem_filter.mp hx).2
  have hsub : ∀ p : Name × Address → Bool, ((desired.entries.filter p).map Prod.fst).Nodup := fun p =>
    desired.nodup.sublist (List.filter_sublist.map _)
  have hdesired : ∀ x ∈ desired.entries, desired.get x.1 = some x.2 := fun x hx =>
    Map.mem_entries.mp hx
  refine ⟨List.nodup_append.mpr ⟨hsub _, List.nodup_append.mpr ⟨hsub _, ?_, ?_⟩, ?_⟩, hadd⟩
  · exact held.nodup.filter _
  · -- an updated name is desired, and a removed one is not
    rintro _ hupdate k hremove rfl
    obtain ⟨x, hx, rfl⟩ := List.mem_map.mp hupdate
    have hnone := (List.mem_filter.mp hremove).2
    rw [hdesired x (List.mem_filter.mp hx).1] at hnone
    cases hnone
  · rintro _ hname k hlater rfl
    obtain ⟨x, hx, rfl⟩ := List.mem_map.mp hname
    have hnone := hadd x hx
    rcases List.mem_append.mp hlater with hupdate | hremove
    · obtain ⟨y, hy, hyx⟩ := List.mem_map.mp hupdate
      have hheld := (List.mem_filter.mp hy).2
      rw [hyx, hnone] at hheld
      cases hheld
    · have hheld := Map.mem_keys.mp (List.mem_filter.mp hremove).1
      rw [hnone] at hheld
      cases hheld

/-- One list of a plan. -/
theorem wp_foldNames {β : Type} {body : β → Delivered → DnsM B Delivered} {name : β → Name}
    {xs : List β} {later : List Name}
    (hbody : ∀ x ∈ xs, ∀ acc rest t, Underway w acc (name x :: rest) t → name x ∉ rest →
      (body x acc).wp host (fun _ => True) (Outcome w fun d => Underway w d rest) t)
    (hnodup : (xs.map name ++ later).Nodup) (h : Underway w acc (xs.map name ++ later) t) :
    (Prog.fold body xs acc).wp host (fun _ => True) (Outcome w fun d => Underway w d later) t := by
  induction xs generalizing acc t with
  | nil => exact h
  | cons x xs ih =>
    obtain ⟨hname, hnodup⟩ := List.nodup_cons.mp hnodup
    refine (Prog.wp_bind (body x acc) _ _).mpr
      (Prog.wp_mono ?_ (hbody x List.mem_cons_self acc _ t h hname))
    rintro (e | d) u hu
    · exact hu
    · exact ih (fun y hy => hbody y (List.mem_cons_of_mem x hy)) hnodup hu

/-- A whole delivery. -/
theorem wp_applyPlan {plan : Plan} {source : Name → Source} (hplan : plan.Apart w.held)
    (h : Underway w {} plan.names t) :
    (applyPlan plan w.held source).wp host (fun _ => True) (Outcome w fun d => Underway w d []) t := by
  have hnodup := (List.nodup_append.mp hplan.nodup).2.1
  refine (Prog.wp_bind _ _ _).mpr (Prog.wp_mono ?_ (@wp_foldNames _ w _ _ _ _ Prod.fst _ _
    (fun x hx acc rest u hu hname => ?_) hplan.nodup h))
  · rintro (e | d) u hu
    · exact hu
    refine (Prog.wp_bind _ _ _).mpr (Prog.wp_mono ?_ (@wp_foldNames _ w _ _ _ _ Prod.fst _ _
      (fun x hx acc rest v hv hname => wp_updateRecord hv hname) hnodup hu))
    rintro (e | d') v hv
    · exact hv
    refine @wp_foldNames _ w _ _ _ _ id _ [] (fun x hx acc rest v hv hname =>
      wp_removeRecord hv hname) ?_ ?_
    · simpa using (List.nodup_append.mp hnodup).2.1
    · have hrest : Underway w d' plan.remove v := hv
      simpa using hrest
  · -- a name that is added is in no ledger, before the add
    have hnone := (hu.get_of_mem List.mem_cons_self).trans (hplan.add x hx)
    refine wp_addRecord hu.of_cons hname (fun a ha => ?_) fun hheld => ?_
    · rw [hnone] at ha
      cases ha
    · rw [hplan.add x hx] at hheld
      cases hheld

/-! ## Before and after the delivery -/

/-- A call that changes neither the server nor the ledger. -/
theorem underway_after (o : DnsOp) (c : Decision) (ho : o.changes = false)
    (hledger : ∀ us rs, o ≠ .updateLedger us rs) (h : Underway w acc rest t) :
    Underway w acc rest (t.after c o) := by
  have hsame : (t.after c o).added = t.added ∧ (t.after c o).confirmed = t.confirmed := by
    cases o with
    | add | remove => cases ho
    | updateLedger us rs => exact absurd rfl (hledger us rs)
    | _ => exact ⟨rfl, rfl⟩
  refine ⟨base_after o c hledger h.base, fun hanswered => ?_, h.upserts, h.removes⟩
  rw [log_after] at hanswered
  have hfollows := h.follows (answered_of_append hanswered)
  exact hfollows.mono (fun x hx => hsame.1 ▸ hx) hsame.2

/-- Nothing is delivered yet, and nothing changes while the program runs. -/
abbrev Passes {α : Type} (w : World B) (p : DnsM B α) (P : α → Prop) : Prop :=
  ∀ t, Underway w {} [] t →
    p.wp host (fun _ => True) (Outcome w fun a u => Underway w {} [] u ∧ P a) t

theorem Passes.bind {α β : Type} {p : DnsM B α} {f : α → DnsM B β} {P : α → Prop} {R : β → Prop}
    (hp : Passes w p P) (hf : ∀ a, P a → Passes w (f a) R) : Passes w (p >>= f) R := by
  intro t ht
  refine (Prog.wp_bind p f _).mpr (Prog.wp_mono ?_ (hp t ht))
  rintro (e | a) u hu
  · exact hu
  · exact hf a hu.2 u hu.1

theorem passes_call {α : Type} {o : DnsOp} {k : o.Result B → DnsM B α} {P : α → Prop}
    (ho : o.changes = false) (hledger : ∀ us rs, o ≠ .updateLedger us rs)
    (hk : ∀ c t, Base w t → Passes w (k (t.answer c o)) P) : Passes w (Prog.call o k) P :=
  fun t ht c => ⟨trivial, hk c t ht.base _ (underway_after o c ho hledger ht)⟩

theorem passes_pure {α : Type} {a : α} {P : α → Prop} (ha : P a) : Passes w (pure a : DnsM B α) P :=
  fun _ ht => ⟨ht, ha⟩

theorem passes_rowsForSubnets (source : Source) (subnets : List ℤ) :
    Passes w (rowsForSubnets (B := B) source subnets) fun _ => True := by
  unfold rowsForSubnets
  split_ifs
  · exact passes_pure trivial
  · exact passes_call rfl nofun fun _ _ _ => passes_pure trivial

theorem passes_desiredForTarget {target : Target} :
    Passes w (desiredForTarget (B := B) target) fun _ => True := by
  refine (passes_rowsForSubnets .lease _).bind fun _ _ => ?_
  refine (passes_rowsForSubnets .reservation _).bind fun _ _ => ?_
  refine (passes_rowsForSubnets .ipam _).bind fun _ _ => ?_
  exact passes_pure trivial

/-- A call that is tried, and changes neither the server nor the ledger. -/
theorem wp_attempt_quiet {o : DnsOp} {α : Type} {f : o.Result B → Except Exc α} {a : α}
    (ho : o.changes = false) (hledger : ∀ us rs, o ≠ .updateLedger us rs) (hraises : o.raises = true)
    (hreply : ∀ c, f (t.answer c o) = c.reply a) (h : Underway w acc rest t) :
    (attempt (Prog.call o fun r => .ofExcept (f r) : DnsM B α)).wp host (fun _ => True)
      (Outcome w fun _ u => Underway w acc rest u) t := by
  refine wp_attempt_call hreply fun c => ?_
  cases c with
  | ok => exact underway_after o _ ho hledger h
  | fails executed e =>
    cases e with
    | sync message => exact underway_after o _ ho hledger h
    | other => exact broken_after o hraises h.base

/-- A plan is made against the ledger, unless the run stops with an error. -/
theorem passes_planForTarget {target : Target} : Passes w (planForTarget (B := B) target)
    fun planned => planned.remoteError = "" → planned.ledger = w.held ∧ planned.plan.Apart w.held := by
  refine passes_desiredForTarget.bind fun desired _ => ?_
  refine passes_call rfl (by rintro _ _ ⟨⟩) fun c t ht => ?_
  cases c with
  | fails executed e =>
    have hunread : planForTarget.unread ≠ "" := by decide
    exact passes_pure fun herror => absurd herror hunread
  | ok =>
    have hheld : t.ledger.mapValues Prod.fst = w.held := by rw [ht.ledger, World.held]
    refine Passes.bind (P := fun rows => rows = some t.ledger) (passes_pure rfl) ?_
    rintro _ rfl
    refine Passes.bind (P := fun _ => True) (fun u hu => ?_) fun r _ => ?_
    · refine Prog.wp_mono ?_ (wp_attempt_quiet (o := .fetch) (f := id) (a := u.remote) rfl (by rintro _ _ ⟨⟩) rfl
        (fun _ => rfl) hu)
      rintro (e | a) v hv
      · exact hv
      · exact ⟨hv, trivial⟩
    · cases r with
      | inl message =>
        refine passes_pure fun _ => ⟨hheld, ?_⟩
        rw [hheld]
        exact apart_planSync
      | inr records =>
        refine passes_pure fun _ => ⟨hheld, ?_⟩
        rw [hheld]
        exact apart_planSync

theorem passes_report {summary alerted : String} {failed : Bool} :
    Passes w (report (B := B) summary alerted failed) fun _ => True := by
  refine Passes.bind (P := fun _ => True) ?_ fun _ _ => ?_
  · exact passes_call (o := .recordResult summary) rfl nofun fun _ _ _ => passes_pure (a := ()) trivial
  · cases failed with
    | false => exact passes_pure (a := ()) trivial
    | true =>
      exact passes_call (o := .alert alerted) rfl nofun fun _ _ _ => passes_pure (a := ()) trivial

/-- A delivery may start. -/
theorem Underway.start (h : Underway w {} rest t) (names : List Name) : Underway w {} names t :=
  ⟨h.base, h.follows, nofun, nofun⟩

theorem wp_syncOnSession {target : Target} (h : Underway w {} [] t) :
    (syncOnSession target).wp host (fun _ => True)
      (Outcome w fun d u => Underway w (d.getD {}) [] u) t := by
  refine (Prog.wp_bind _ _ _).mpr (Prog.wp_mono ?_ (passes_planForTarget t h))
  rintro (e | planned) u hu
  · exact hu
  obtain ⟨hu, hplanned⟩ := hu
  refine (Prog.wp_ite _ _ _ _).mpr ⟨fun _ => ?_, fun herror => ?_⟩
  · refine (Prog.wp_bind _ _ _).mpr (Prog.wp_mono ?_ (passes_report u hu))
    rintro (e | a) v hv
    · exact hv
    · exact hv.1
  · obtain ⟨hledger, hapart⟩ := hplanned (not_not.mp herror)
    rw [hledger]
    refine (Prog.wp_bind _ _ _).mpr (Prog.wp_mono ?_ (wp_applyPlan hapart (hu.start _)))
    rintro (e | d) v hv
    · exact hv
    · exact hv

/-- Where the session ends: with what was delivered, with nothing delivered, or broken. -/
def Stands (w : World B) : Except Exc (Option Delivered) → World B → Prop
  | .ok d, t => Underway w (d.getD {}) [] t
  | .error (.sync _), t => Underway w {} [] t
  | .error .other, t => Broken w .other t

theorem stands_of_outcome {r : Except Exc (Option Delivered)}
    (h : Outcome w (fun d u => Underway w (d.getD {}) [] u) r t) : Stands w r t := by
  rcases r with e | d
  · obtain ⟨rfl, hbroken⟩ := h
    exact ⟨rfl, hbroken⟩
  · exact h

/-- The end of a session changes neither the server nor the ledger, and may raise. -/
theorem stands_after_logout {r : Except Exc (Option Delivered)} (h : Stands w r t) (c : Decision) :
    Stands w (match c.caught () with | .ok _ => r | .error e => .error e) (t.after c .logout) := by
  have hbase : Base w t := by
    match r, h with
    | .ok _, h => exact h.base
    | .error (.sync _), h => exact h.base
    | .error .other, h => exact h.2.1
  have hquiet : Stands w r (t.after c .logout) := by
    match r, h with
    | .ok _, h => exact underway_after .logout c rfl nofun h
    | .error (.sync _), h => exact underway_after .logout c rfl nofun h
    | .error .other, ⟨_, _, o, executed, ho, hmem⟩ =>
      exact ⟨rfl, base_after .logout c nofun hbase, o, executed, ho, by simp [hmem]⟩
  cases c with
  | ok => exact hquiet
  | fails executed e =>
    cases e with
    | sync message => exact hquiet
    | other => exact broken_after .logout rfl hbase

theorem wp_remoteSession {target : Target} (h : Underway w {} [] t) :
    (remoteSession (syncOnSession target)).wp host (fun _ => True) (Stands w) t := by
  have hbody : ∀ u, Underway w {} [] u → (syncOnSession target).wp host (fun _ => True) (Stands w) u :=
    fun u hu => Prog.wp_mono (fun _ _ => stands_of_outcome) (wp_syncOnSession hu)
  unfold remoteSession
  split_ifs
  · intro c
    refine ⟨trivial, ?_⟩
    have hstart : Underway w {} [] (t.after c .session) := underway_after .session c rfl nofun h
    cases c with
    | fails executed e =>
      cases e with
      | sync message => exact hstart
      | other => exact broken_after .session rfl h.base
    | ok =>
      refine (Prog.wp_bind (Prog.done t.password) _ _).mpr ?_
      -- the body, and whatever it raises
      refine (Prog.wp_bind _ _ _).mpr ((Prog.wp_handle _ _ _).mpr ((Prog.wp_bind _ _ _).mpr
        (Prog.wp_mono ?_ (hbody _ hstart))))
      have hlogout : ∀ r u, Stands w r u → (logout (B := B) t.password >>= fun _ =>
          Prog.ofExcept r).wp host (fun _ => True) (Stands w) u := by
        intro r u hr
        refine (Prog.wp_bind _ _ _).mpr ?_
        cases t.password with
        | false => exact (Prog.wp_ofExcept r _).mpr hr
        | true =>
          refine (Prog.wp_bind _ _ _).mpr (wp_attempt_call (a := ()) (fun _ => rfl) fun c => ?_)
          have hend := stands_after_logout hr c
          cases c with
          | ok => exact (Prog.wp_ofExcept r _).mpr hend
          | fails executed e =>
            cases e with
            | sync message => exact (Prog.wp_ofExcept r _).mpr hend
            | other => exact hend
      rintro (e | d) u hu
      · exact hlogout (.error e) u hu
      · exact hlogout (.ok d) u hu
  · exact hbody t h

/-- After the ledger is written, or was not, it follows the server, where the run meets the condition. -/
def Ended (w : World B) (t : World B) : Prop := Confirmed w.held t.log → Follows t.held t

theorem Underway.ended (h : Underway w {} rest t) : Ended w t := by
  intro hconfirmed
  have hfollows := h.follows hconfirmed.answered
  have hheld : t.held = ({} : Delivered).written w.ledger := by
    rw [World.held, h.base.ledger]
    rfl
  rw [hheld]
  exact hfollows

/-- A run that raises has written nothing, and has added nothing new. -/
theorem Broken.ended {e : Exc} (hstart : Follows w.held w) (h : Broken w e t) : Ended w t := by
  obtain ⟨-, hbase, o, executed, ho, hmem⟩ := h
  intro hconfirmed
  have hheld : t.held = w.held := by rw [World.held, hbase.ledger, World.held]
  rw [hheld]
  refine ⟨fun name ip hadded => ?_, fun name ip hget =>
    hbase.confirmed _ (hstart.confirmed name ip hget)⟩
  rcases hbase.added name ip hadded with hadded | ⟨c, hexecuted, hlog⟩
  · exact hstart.added name ip hadded
  · by_contra hnew
    exact hconfirmed.whole c ⟨hexecuted, name, ip, hlog, hnew⟩ o executed ho hmem

/-- The condition on a longer log holds of a shorter one. -/
theorem Confirmed.of_append {held : Map Name Address} {log : List (DnsOp × Decision)}
    {x : DnsOp × Decision} (h : Confirmed held (log ++ [x])) : Confirmed held log :=
  ⟨answered_of_append h.answered,
    fun c ⟨hexecuted, name, ip, hmem, hnew⟩ o executed ho hlog =>
      h.whole c ⟨hexecuted, name, ip, List.mem_append_left _ hmem, hnew⟩ o executed ho
        (List.mem_append_left _ hlog),
    fun us rs c hlog => h.written us rs c (List.mem_append_left _ hlog)⟩

theorem ended_after (o : DnsOp) (c : Decision) (ho : o.changes = false)
    (hledger : ∀ us rs, o ≠ .updateLedger us rs) (h : Ended w t) : Ended w (t.after c o) := by
  intro hconfirmed
  rw [log_after] at hconfirmed
  have hfollows := h hconfirmed.of_append
  have hsame : (t.after c o).held = t.held ∧ (t.after c o).added = t.added ∧
      (t.after c o).confirmed = t.confirmed := by
    cases o with
    | add | remove => cases ho
    | updateLedger us rs => exact absurd rfl (hledger us rs)
    | _ => exact ⟨rfl, rfl, rfl⟩
  rw [hsame.1]
  exact hfollows.mono (fun x hx => hsame.2.1 ▸ hx) hsame.2.2

theorem wp_report {summary alerted : String} {failed : Bool} (h : Ended w t) :
    (report summary alerted failed).wp host (fun _ => True) (fun _ u => Ended w u) t := by
  intro c
  have hrecorded := ended_after (.recordResult summary) c rfl nofun h
  refine ⟨trivial, ?_⟩
  cases failed with
  | false => exact hrecorded
  | true => exact fun c' => ⟨trivial, ended_after (.alert alerted) c' rfl nofun hrecorded⟩

theorem wp_updateLedger {d : Delivered} (h : Underway w d [] t) :
    (updateLedger d).wp host (fun _ => True) (fun r u => r = .ok () ∧ Ended w u) t := by
  refine (Prog.wp_ite _ _ _ _).mpr ⟨fun hempty => ⟨rfl, fun hconfirmed => ?_⟩, fun _ c => ?_⟩
  · have hheld : t.held = d.written w.ledger := by
      rw [World.held, h.base.ledger, Delivered.written, hempty.1, hempty.2]
      rfl
    rw [hheld]
    exact h.follows hconfirmed.answered
  · refine ⟨trivial, rfl, fun hconfirmed => ?_⟩
    have hlog : (t.after c (.updateLedger d.upserts d.removes)).log =
        t.log ++ [(.updateLedger d.upserts d.removes, c)] := log_after _ _
    change Confirmed w.held (t.after c (.updateLedger d.upserts d.removes)).log at hconfirmed
    rw [hlog] at hconfirmed
    obtain rfl : c = .ok := hconfirmed.written d.upserts d.removes c (by simp)
    have hfollows := h.follows hconfirmed.of_append.answered
    have hheld : (t.after .ok (.updateLedger d.upserts d.removes)).held = d.written w.ledger := by
      rw [Delivered.written, ← h.base.ledger]
      rfl
    change Follows (t.after .ok (.updateLedger d.upserts d.removes)).held _
    rw [hheld]
    exact hfollows.mono (fun _ hx => hx) rfl

/-- A sync keeps the ledger in step with the server, where it meets the condition. -/
theorem ended_sync (hstart : Follows w.held w) (f : ℕ → Decision) : Ended w (w.sync f) := by
  have hbase : Underway w {} [] w.fresh := by
    refine ⟨⟨rfl, fun name ip hmem => .inl hmem, fun x hx => hx⟩, fun _ => ?_, nofun, nofun⟩
    exact hstart.mono (fun x hx => hx) rfl
  have hwp : (syncLocked (B := B)).wp host (fun _ => True) (fun _ t => Ended w t) w.fresh := by
    intro c
    refine ⟨trivial, ?_⟩
    have hread := underway_after .target c rfl nofun hbase
    cases c with
    | fails executed e => exact hread.ended
    | ok =>
      refine (Prog.wp_bind (Prog.done w.target) _ _).mpr ?_
      cases w.target with
      | none => exact hread.ended
      | some target =>
        refine (Prog.wp_ite _ _ _ _).mpr ⟨fun _ => hread.ended, fun _ => ?_⟩
        refine (Prog.wp_bind _ _ _).mpr ((Prog.wp_handle _ _ _).mpr ((Prog.wp_bind _ _ _).mpr
          (Prog.wp_mono ?_ (wp_remoteSession hread))))
        rintro (e | d) t ht
        · cases e with
          | sync message => exact wp_report (Underway.ended ht)
          | other => exact Broken.ended hstart ht
        · cases d with
          | none => exact Underway.ended ht
          | some d =>
            refine (Prog.wp_bind _ _ _).mpr (Prog.wp_mono ?_ (wp_updateLedger ht))
            rintro _ u ⟨rfl, hu⟩
            exact wp_report hu
  exact (Prog.wp_sound hwp f).1

end Run

/-! ## Histories -/

/-- A change by someone else leaves the ledger, and what Jen knows of its own records. -/
theorem follows_act {w : World B} (hw : Follows w.held w) (a : Act B) (ha : w.Meets a) :
    Follows (w.act a).held (w.act a) := by
  cases a with
  | sync f => exact ended_sync hw f ha
  | change target sources remote password => exact hw.mono (fun x hx => hx) rfl

/-- A run in which no call fails meets the condition. -/
theorem confirmed_of_ok {held : Map Name Address} {log : List (DnsOp × Decision)}
    (h : ∀ x ∈ log, x.2 = .ok) : Confirmed held log := by
  refine ⟨fun c ⟨_, name, ip, hmem, _⟩ => h _ hmem, fun c _ o executed _ hmem => ?_,
    fun us rs c hmem => h _ hmem⟩
  have hok := h _ hmem
  cases hok

/-- The name of a printer. -/
def printer : Name := ⟨"printer", by decide⟩

/-- The storage box, and a printer. -/
def officeWorld : World (adguard "lan") :=
  { nasWorld .empty [] with
    sources := fun
      | .reservation => some [⟨nasAddress, "nas"⟩, ⟨⟨"10.0.0.6", by decide⟩, "printer"⟩]
      | _ => some [] }

/-- One call of a run fails, and the others succeed. -/
def failsAt (n : ℕ) (executed : Bool) (e : Exc) : ℕ → Decision :=
  fun i => if i = n then .fails executed e else .ok

end JenKea.Dns
