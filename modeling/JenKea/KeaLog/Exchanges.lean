import JenKea.KeaLog.Unmixed
import JenKea.Lib.Sessions

/-!
# Every exchange is of one client and one transaction

The evidence of a client falls into sessions by its transaction ids, and each exchange that `transactions` returns is what
the evidence of one session says: its newest client id, its newest class list, its newest packet dump.
-/

namespace JenKea.KeaLog.Inputs

/-- The later header is readably more than the gap after the earlier one. -/
def isApart (e e' : Evidence × ℕ) : Bool := apart e.1.header.time e'.1.header.time

/-- The transaction id of a numbered piece of evidence. -/
def tidOf (e : Evidence × ℕ) : String := e.1.tid

/-- What the scan keeps of a session, as it goes through it. -/
def summary (g : List (Evidence × ℕ)) : Option Tx :=
  g.foldl (fun tx e => some ((tx.getD (Tx.new e.1)).touch e.1 e.2)) none

/-- What it keeps of a session with evidence in it. -/
def txOf (g : List (Evidence × ℕ)) : Tx := (summary g).getD ⟨"", "", "", none, none, none, none, 0⟩

/-- The exchange says what its evidence says. -/
structure Says (evidence : List Evidence) (x : Exchange) : Prop where
  nonempty : evidence ≠ []
  tid : ∀ e ∈ evidence, e.tid = x.tid
  first : x.first = (evidence.head?.map fun e => e.header.ts).getD ""
  last : x.last = (evidence.getLast?.map fun e => e.header.ts).getD ""
  cid : x.cid = (evidence.filterMap Evidence.clientId).getLast?
  classes : x.classes = (evidence.filterMap Evidence.classes).getLast?
  query : x.query = (evidence.filterMap Evidence.query).getLast?
  complete : x.complete = (x.classes.isSome || x.query.isSome)

section Summary

variable {g : List (Evidence × ℕ)} {e : Evidence × ℕ} {tx : Tx}

theorem summary_snoc : summary (g ++ [e]) = some (((summary g).getD (Tx.new e.1)).touch e.1 e.2) := by
  unfold summary
  rw [List.foldl_append]
  rfl

theorem isSome_summary (h : g ≠ []) : (summary g).isSome = true := by
  obtain ⟨init, e, rfl⟩ : ∃ init e, g = init ++ [e] :=
    ⟨g.dropLast, g.getLast h, (List.dropLast_append_getLast h).symm⟩
  rw [summary_snoc]
  rfl

theorem txOf_singleton : txOf [e] = (Tx.new e.1).touch e.1 e.2 := rfl

theorem txOf_snoc (h : g ≠ []) : txOf (g ++ [e]) = (txOf g).touch e.1 e.2 := by
  obtain ⟨tx, htx⟩ := Option.isSome_iff_exists.mp (isSome_summary h)
  unfold txOf
  rw [summary_snoc, htx]
  rfl

/-- The newest of what a list of evidence has. -/
theorem getLast?_snoc {β : Type} {f : Evidence → Option β} {es : List Evidence} {e : Evidence} :
    ((es ++ [e]).filterMap f).getLast? = (f e).or (es.filterMap f).getLast? := by
  rw [List.filterMap_append, List.filterMap_cons, List.filterMap_nil]
  cases f e with
  | none => rw [List.append_nil, Option.none_or]
  | some b => rw [List.getLast?_concat, Option.some_or]

/-- What is kept of a session. -/
theorem txOf_spec (h : g ≠ []) (hkey : ∀ a ∈ g, ∀ b ∈ g, tidOf a = tidOf b) :
    Says (g.map Prod.fst) (txOf g).exchange ∧ ∃ e, g.getLast? = some e ∧ (txOf g).lastTime = e.1.header.time := by
  induction g using List.reverseRecOn with
  | nil => exact absurd rfl h
  | append_singleton g e ih =>
    have hlast : (g ++ [e]).getLast? = some e := List.getLast?_concat
    by_cases hg : g = []
    · subst hg
      rw [List.nil_append, txOf_singleton]
      refine ⟨⟨List.cons_ne_nil _ _, fun a ha => ?_, rfl, rfl, ?_, ?_, ?_, rfl⟩, e, rfl, rfl⟩
      · rw [List.mem_singleton.mp ha]
        rfl
      · exact (@getLast?_snoc _ Evidence.clientId [] e.1).symm
      · exact (@getLast?_snoc _ Evidence.classes [] e.1).symm
      · exact (@getLast?_snoc _ Evidence.query [] e.1).symm
    · obtain ⟨htx, -⟩ := ih hg fun a ha b hb => hkey a (List.mem_append_left _ ha) b (List.mem_append_left _ hb)
      rw [txOf_snoc hg, List.map_append]
      refine ⟨⟨List.append_ne_nil_of_right_ne_nil _ (List.cons_ne_nil _ _), fun a ha => ?_, ?_, ?_, ?_, ?_, ?_, rfl⟩,
        e, hlast, rfl⟩
      · rcases List.mem_append.mp ha with ha | ha
        · exact htx.tid a ha
        · obtain ⟨b, hb⟩ := List.exists_mem_of_ne_nil g hg
          have hsame : e.1.tid = b.1.tid :=
            hkey e (List.mem_append_right _ List.mem_cons_self) b (List.mem_append_left _ hb)
          rw [List.mem_singleton.mp ha, hsame]
          exact htx.tid b.1 (List.mem_map_of_mem hb)
      · have hfirst := htx.first
        rw [List.head?_append_of_ne_nil _ fun hnil => hg (List.map_eq_nil_iff.mp hnil)]
        exact hfirst
      · rw [List.map_singleton, List.getLast?_concat]
        rfl
      · rw [List.map_singleton, getLast?_snoc]
        exact congrArg (e.1.clientId.or ·) htx.cid
      · rw [List.map_singleton, getLast?_snoc]
        exact congrArg (e.1.classes.or ·) htx.classes
      · rw [List.map_singleton, getLast?_snoc]
        exact congrArg (e.1.query.or ·) htx.query

end Summary

/-! ## The walk is one over sessions -/

section Walk

variable {needle : String} {es : List Evidence} {lines : List Line} {mac : String}

theorem mapValues_erase {κ α β : Type} [DecidableEq κ] {f : α → β} {m : Map κ α} {k : κ} :
    (m.mapValues f).erase k = (m.erase k).mapValues f := by
  refine Map.eq_of_entries ?_
  unfold Map.erase Map.mapValues
  dsimp only
  rw [List.filter_map]
  rfl

/-- The sessions of numbered evidence. -/
def sessionsOf (es : List Evidence) : Sessions String (Evidence × ℕ) := Sessions.sessions tidOf isApart (es.zipIdx 1)

/-- The walk keeps a summary of every session. -/
structure Summed (es : List Evidence) (w : Walk) : Prop where
  opened : w.openByTid = (sessionsOf es).openByKey.mapValues txOf
  done : w.done = (sessionsOf es).done.map txOf
  order : w.order = es.length

theorem sessionsOf_snoc (e : Evidence) : sessionsOf (es ++ [e]) = (sessionsOf es).add tidOf isApart (e, es.length + 1) := by
  unfold sessionsOf Sessions.sessions
  rw [List.zipIdx_append, List.foldl_append, Nat.add_comm]
  rfl

theorem summed_walk : Summed es (es.foldl Walk.add .start) := by
  induction es using List.reverseRecOn with
  | nil => exact ⟨rfl, rfl, rfl⟩
  | append_singleton es e ih =>
    rw [List.foldl_append]
    generalize es.foldl Walk.add .start = w at ih
    have hsound : Sessions.Sound tidOf isApart (es.zipIdx 1) (sessionsOf es) := Sessions.sound_sessions
    have hopen : w.openByTid.get e.tid = ((sessionsOf es).openByKey.get e.tid).map txOf := by
      rw [ih.opened, Map.get_mapValues]
    have horder : w.order + 1 = es.length + 1 := congrArg (· + 1) ih.order
    have hlength : (es ++ [e]).length = es.length + 1 := by
      rw [List.length_append, List.length_singleton]
    have hnew : (Tx.new e).touch e (es.length + 1) = txOf [(e, es.length + 1)] := rfl
    rw [List.foldl_cons, List.foldl_nil]
    unfold Walk.add
    dsimp only
    rw [hopen, horder]
    cases hget : (sessionsOf es).openByKey.get e.tid with
    | none =>
      have hadd : sessionsOf (es ++ [e]) = { sessionsOf es with
          openByKey := (sessionsOf es).openByKey.put e.tid [(e, es.length + 1)] } := by
        rw [sessionsOf_snoc, Sessions.add]
        have hget' : (sessionsOf es).openByKey.get (tidOf (e, es.length + 1)) = none := hget
        rw [hget']
        rfl
      refine ⟨?_, ?_, hlength.symm⟩
      · rw [hadd]
        dsimp only [Option.map_none]
        rw [ih.opened, hnew, Map.mapValues_put]
      · rw [hadd]
        exact ih.done
    | some g =>
      have hentry : (e.tid, g) ∈ (sessionsOf es).openByKey.entries := Map.mem_entries.mpr hget
      have hgroup : g ∈ (sessionsOf es).groups := List.mem_append_right _ (List.mem_map_of_mem hentry)
      have hsession := hsound.session g hgroup
      obtain ⟨-, last, hlast, htime⟩ := txOf_spec hsession.nonempty hsession.oneKey
      have hapart : apart (txOf g).lastTime e.header.time = g.getLast?.any fun y => isApart y (e, es.length + 1) := by
        rw [hlast, htime]
        rfl
      have hget' : (sessionsOf es).openByKey.get (tidOf (e, es.length + 1)) = some g := hget
      dsimp only [Option.map_some]
      rw [hapart]
      by_cases hout : (g.getLast?.any fun y => isApart y (e, es.length + 1)) = true
      · have hadd : sessionsOf (es ++ [e]) = ⟨((sessionsOf es).openByKey.erase e.tid).put e.tid [(e, es.length + 1)],
            (sessionsOf es).done ++ [g]⟩ := by
          rw [sessionsOf_snoc, Sessions.add, hget']
          exact if_pos hout
        rw [if_pos hout]
        refine ⟨?_, ?_, hlength.symm⟩
        · rw [hadd]
          dsimp only
          rw [ih.opened, hnew, Map.mapValues_put, mapValues_erase]
        · rw [hadd, List.map_append, ← ih.done]
          rfl
      · have hadd : sessionsOf (es ++ [e]) = { sessionsOf es with
            openByKey := (sessionsOf es).openByKey.put e.tid (g ++ [(e, es.length + 1)]) } := by
          rw [sessionsOf_snoc, Sessions.add, hget']
          exact if_neg hout
        rw [if_neg hout]
        refine ⟨?_, ?_, hlength.symm⟩
        · rw [hadd]
          dsimp only
          rw [ih.opened, Map.mapValues_put, txOf_snoc hsession.nonempty]
        · rw [hadd]
          exact ih.done

/-- Evidence is a header of the client, with the rows after it where it is a packet dump. -/
theorem mem_evidence {e : Evidence} (h : e ∈ evidence needle lines) : ∃ before l after own,
    lines = before ++ l :: after ∧ ownOf needle l = some own ∧
      e = if own.header.id = queryData then { own with dump := some (after.takeWhile isRow) } else own := by
  induction hlen : lines.length using Nat.strong_induction_on generalizing lines with
  | _ n ih =>
    cases lines with
    | nil =>
      rw [evidence] at h
      cases h
    | cons l ls =>
      rw [List.length_cons] at hlen
      cases hown : ownOf needle l with
      | none =>
        rw [evidence_skip hown] at h
        obtain ⟨before, l', after, own, rfl, hspec⟩ := ih ls.length (by omega) h rfl
        exact ⟨l :: before, l', after, own, rfl, hspec⟩
      | some own =>
        by_cases hid : own.header.id = queryData
        · have hrest : (ls.dropWhile isRow).length ≤ ls.length := (List.dropWhile_sublist isRow).length_le
          rw [evidence_dump hown hid] at h
          rcases List.mem_cons.mp h with rfl | h
          · exact ⟨[], l, ls, own, rfl, hown, (if_pos hid).symm⟩
          · obtain ⟨before, l', after, own', hsplit, hspec⟩ := ih _ (by omega) h rfl
            refine ⟨l :: (ls.takeWhile isRow ++ before), l', after, own', ?_, hspec⟩
            rw [List.cons_append, List.append_assoc, ← hsplit, List.takeWhile_append_dropWhile]
        · rw [evidence_header hown hid] at h
          rcases List.mem_cons.mp h with rfl | h
          · exact ⟨[], l, ls, e, rfl, hown, (if_neg hid).symm⟩
          · obtain ⟨before, l', after, own', rfl, hspec⟩ := ih ls.length (by omega) h rfl
            exact ⟨l :: before, l', after, own', rfl, hspec⟩

end Walk

/-! ## Exchanges -/

/-- The evidence that the lines have of a client, none where the address is none. -/
def evidenceOf (lines : List Line) (mac : String) : List Evidence :=
  if normMac mac = "" then [] else evidence (normMac mac) lines

/-- A header of the client in the lines, with the rows directly after it where it is a packet dump. -/
def IsOwn (lines : List Line) (mac : String) (e : Evidence) : Prop := ∃ before l after own,
  lines = before ++ l :: after ∧ ownOf (normMac mac) l = some own ∧
    e = if own.header.id = queryData then { own with dump := some (after.takeWhile isRow) } else own

/-- The evidence of each exchange: the pieces of its transaction, in their order, one after the other as `close` has it. -/
structure Groups (close : Evidence → Evidence → Prop) (lines : List Line) (mac : String)
    (groups : List (List Evidence)) : Prop where
  exchanges : List.Forall₂ Says groups (transactions lines mac)
  perm : groups.flatten.Perm (evidenceOf lines mac)
  sublist : ∀ g ∈ groups, g.Sublist (evidenceOf lines mac)
  own : ∀ g ∈ groups, ∀ e ∈ g, IsOwn lines mac e
  chain : ∀ g ∈ groups, g.IsChain close

/-- The later of two headers is not readably more than the gap after the earlier one. -/
def Close (e e' : Evidence) : Prop := apart e.header.time e'.header.time = false

section Groups

variable {lines : List Line} {mac : String} {es : List Evidence}

theorem zipIdx_fst : (es.zipIdx 1).map Prod.fst = es := List.zipIdx_map_fst 1 es

/-- The number of the last piece of evidence of a session. -/
def lastNumber (g : List (Evidence × ℕ)) : ℕ := (g.getLast?.map Prod.snd).getD 0

/-- Numbered evidence, in the sessions of its exchanges, in the order of their last pieces. -/
structure Sorted (es : List Evidence) (exchanges : List Exchange) (gs : List (List (Evidence × ℕ))) : Prop where
  exchanges : List.Forall₂ (fun g x => Says (g.map Prod.fst) x) gs exchanges
  perm : gs.flatten.Perm (es.zipIdx 1)
  session : ∀ g ∈ gs, Sessions.Session tidOf isApart (es.zipIdx 1) g
  order : gs.Pairwise fun g g' => lastNumber g ≤ lastNumber g'

theorem order_txOf {g : List (Evidence × ℕ)} (h : g ≠ []) : (txOf g).order = lastNumber g := by
  obtain ⟨init, e, rfl⟩ : ∃ init e, g = init ++ [e] :=
    ⟨g.dropLast, g.getLast h, (List.dropLast_append_getLast h).symm⟩
  unfold lastNumber
  rw [List.getLast?_concat]
  by_cases hinit : init = []
  · subst hinit
    rfl
  · rw [txOf_snoc hinit]
    rfl

/-- The exchanges of evidence. -/
def exchangesOf (es : List Evidence) : List Exchange :=
  ((((es.foldl Walk.add .start).done ++ (es.foldl Walk.add .start).openByTid.entries.map Prod.snd).insertionSort
    fun a b => a.order ≤ b.order).map Tx.exchange)

theorem exists_sorted : ∃ gs, Sorted es (exchangesOf es) gs := by
  have hsum : Summed es (es.foldl Walk.add .start) := summed_walk
  have hsound : Sessions.Sound tidOf isApart (es.zipIdx 1) (sessionsOf es) := Sessions.sound_sessions
  have hvalues : ((sessionsOf es).openByKey.mapValues txOf).entries.map Prod.snd =
      ((sessionsOf es).openByKey.entries.map Prod.snd).map txOf := by
    unfold Map.mapValues
    dsimp only
    rw [List.map_map, List.map_map]
    rfl
  have hkept : (es.foldl Walk.add .start).done ++ (es.foldl Walk.add .start).openByTid.entries.map Prod.snd =
      (sessionsOf es).groups.map txOf := by
    rw [hsum.done, hsum.opened, hvalues, ← List.map_append]
    rfl
  -- the sessions sorted as their summaries are
  let sorted := (sessionsOf es).groups.insertionSort fun a b => (txOf a).order ≤ (txOf b).order
  have hperm : sorted.Perm (sessionsOf es).groups := List.perm_insertionSort _ _
  have hsorted : ((sessionsOf es).groups.map txOf).insertionSort (fun a b => a.order ≤ b.order) = sorted.map txOf :=
    (List.map_insertionSort _ _ txOf _ fun _ _ _ _ => Iff.rfl).symm
  have hsession : ∀ g ∈ sorted, Sessions.Session tidOf isApart (es.zipIdx 1) g := by
    intro g hg
    exact hsound.session g (hperm.mem_iff.mp hg)
  have hpairwise : sorted.Pairwise fun a b => (txOf a).order ≤ (txOf b).order := by
    have htotal : Std.Total fun a b : List (Evidence × ℕ) => (txOf a).order ≤ (txOf b).order :=
      ⟨fun a b => Nat.le_total _ _⟩
    have htrans : IsTrans (List (Evidence × ℕ)) fun a b => (txOf a).order ≤ (txOf b).order :=
      ⟨fun a b c hab hbc => Nat.le_trans hab hbc⟩
    exact List.pairwise_insertionSort _ _
  refine ⟨sorted, ?_, hperm.flatten.trans hsound.perm, hsession, hpairwise.imp_of_mem fun {a b} ha hb hab => ?_⟩
  · unfold exchangesOf
    rw [hkept, hsorted, List.map_map, List.forall₂_map_right_iff]
    refine List.forall₂_same.mpr fun g hg => ?_
    exact (txOf_spec (hsession g hg).nonempty (hsession g hg).oneKey).1
  · rwa [order_txOf (hsession a ha).nonempty, order_txOf (hsession b hb).nonempty] at hab

/-- The exchanges of evidence, in the order of their last pieces. -/
theorem exists_groups : ∃ groups : List (List Evidence), List.Forall₂ Says groups (exchangesOf es) ∧
    groups.flatten.Perm es ∧ ∀ g ∈ groups, g.Sublist es ∧ g.IsChain Close := by
  obtain ⟨gs, h⟩ := @exists_sorted es
  refine ⟨gs.map fun g => g.map Prod.fst, (List.forall₂_map_left_iff).mpr h.exchanges, ?_, fun g hg => ?_⟩
  · have hflat : (gs.map fun g => g.map Prod.fst).flatten = gs.flatten.map Prod.fst := List.map_flatten.symm
    rw [hflat]
    simpa only [zipIdx_fst] using h.perm.map Prod.fst
  · obtain ⟨s, hs, rfl⟩ := List.mem_map.mp hg
    have hsub : (s.map Prod.fst).Sublist ((es.zipIdx 1).map Prod.fst) := (h.session s hs).sublist.map Prod.fst
    rw [zipIdx_fst] at hsub
    exact ⟨hsub, (List.isChain_map Prod.fst).mpr (h.session s hs).close⟩

/-- What `transactions` returns is of the client's evidence. -/
theorem transactions_eq : transactions lines mac = exchangesOf (evidenceOf lines mac) := by
  unfold transactions evidenceOf
  dsimp only
  by_cases hmac : normMac mac = ""
  · rw [if_pos hmac, if_pos hmac]
    rfl
  · rw [if_neg hmac, if_neg hmac, scan_eq]
    rfl

/-- No piece of evidence of another client or of another exchange is in an exchange, and other clients change none. -/
theorem transactions_unmixed (lines : List Line) (mac : String) :
    (∀ lines', Relation.EqvGen (Inserted (normMac mac)) lines lines' →
      transactions lines mac = transactions lines' mac) ∧
    ∃ groups, Groups Close lines mac groups := by
  refine ⟨fun lines' h => transactions_eqvGen h, ?_⟩
  obtain ⟨groups, hexchanges, hperm, hgroups⟩ := @exists_groups (evidenceOf lines mac)
  rw [← transactions_eq] at hexchanges
  refine ⟨groups, hexchanges, hperm, fun g hg => (hgroups g hg).1, fun g hg e he => ?_, fun g hg => (hgroups g hg).2⟩
  have hmem := (hgroups g hg).1.mem he
  unfold evidenceOf at hmem
  by_cases hmac : normMac mac = ""
  · rw [if_pos hmac] at hmem
    cases hmem
  · rw [if_neg hmac] at hmem
    exact mem_evidence hmem

/-- The exchange is what one session of the evidence says: complete if that of any session is, and of those that are
complete as it is, it is the one that goes on last. -/
def Newest (es : List Evidence) (exchanges : List Exchange) (x : Exchange) : Prop :=
  ∃ gs g, Sorted es exchanges gs ∧ g ∈ gs ∧ Says (g.map Prod.fst) x ∧
    ∀ g' ∈ gs, ∀ x', Says (g'.map Prod.fst) x' →
      (x'.complete = true → x.complete = true) ∧ (x'.complete = x.complete → lastNumber g' ≤ lastNumber g)

theorem Says.complete_eq {g : List Evidence} {x x' : Exchange} (h : Says g x) (h' : Says g x') :
    x.complete = x'.complete := by
  rw [h.complete, h'.complete, h.classes, h'.classes, h.query, h'.query]

/-- The last element of a list that has a property. -/
theorem split_of_getLast?_filter {β : Type} {p : β → Bool} {l : List β} {x : β} (h : (l.filter p).getLast? = some x) :
    ∃ a b, l = a ++ x :: b ∧ p x = true ∧ ∀ y ∈ b, p y = false := by
  induction l using List.reverseRecOn with
  | nil => cases h
  | append_singleton l y ih =>
    rw [List.filter_append, List.filter_singleton] at h
    cases hy : p y with
    | true =>
      rw [hy, cond_true, List.getLast?_concat] at h
      obtain rfl := Option.some.inj h
      exact ⟨l, [], rfl, hy, fun z hz => (by cases hz)⟩
    | false =>
      rw [hy, cond_false, List.append_nil] at h
      obtain ⟨a, b, rfl, hx, hb⟩ := ih h
      refine ⟨a, b ++ [y], ?_, hx, fun z hz => ?_⟩
      · rw [List.append_assoc, List.cons_append]
      · rcases List.mem_append.mp hz with hz | hz
        · exact hb z hz
        · rw [List.mem_singleton.mp hz, hy]

theorem forall₂_split {β γ : Type} {r : β → γ → Prop} {l : List β} {a b : List γ} {x : γ}
    (h : List.Forall₂ r l (a ++ x :: b)) : ∃ la y lb, l = la ++ y :: lb ∧ r y x ∧ List.Forall₂ r lb b := by
  induction a generalizing l with
  | nil =>
    cases h with
    | cons hy hrest => exact ⟨[], _, _, rfl, hy, hrest⟩
  | cons z a ih =>
    cases h with
    | cons hz hrest =>
      obtain ⟨la, y, lb, rfl, hy, hb⟩ := ih hrest
      exact ⟨_ :: la, y, lb, rfl, hy, hb⟩

theorem exists_of_forall₂ {β γ : Type} {r : β → γ → Prop} {l : List β} {l' : List γ} (h : List.Forall₂ r l l') {y : β}
    (hy : y ∈ l) : ∃ x ∈ l', r y x := by
  induction h with
  | nil => cases hy
  | cons hr _ ih =>
    rcases List.mem_cons.mp hy with rfl | hy
    · exact ⟨_, List.mem_cons_self, hr⟩
    · obtain ⟨x, hx, hxy⟩ := ih hy
      exact ⟨x, List.mem_cons_of_mem _ hx, hxy⟩

/-- The last exchange with a property that the complete ones have, or that all have where none is complete. -/
theorem newest_of_split {exchanges a b : List Exchange} {x : Exchange} {gs : List (List (Evidence × ℕ))}
    (hgs : Sorted es exchanges gs) (hsplit : exchanges = a ++ x :: b)
    (hany : ∀ y ∈ exchanges, y.complete = true → x.complete = true)
    (hafter : ∀ y ∈ b, y.complete = x.complete → False) : Newest es exchanges x := by
  have hforall := hgs.exchanges
  rw [hsplit] at hforall
  obtain ⟨ga, g, gb, rfl, hg, hb⟩ := forall₂_split hforall
  refine ⟨_, g, hgs, List.mem_append_right _ List.mem_cons_self, hg, fun g' hg' x' hx' => ⟨fun hcomplete => ?_, fun hsame => ?_⟩⟩
  · obtain ⟨y, hy, hsaid⟩ := exists_of_forall₂ hgs.exchanges hg'
    refine hany y hy ?_
    rw [hsaid.complete_eq hx', hcomplete]
  · obtain ⟨-, hright, hacross⟩ := List.pairwise_append.mp hgs.order
    rcases List.mem_append.mp hg' with hg' | hg'
    · exact hacross g' hg' g List.mem_cons_self
    · rcases List.mem_cons.mp hg' with rfl | hg'
      · exact Nat.le_refl _
      · obtain ⟨y, hy, hsaid⟩ := exists_of_forall₂ hb hg'
        refine absurd (hafter y hy ?_) id
        rw [hsaid.complete_eq hx', hsame]

/-- There is an exchange where there is evidence, and it is the newest. -/
theorem latestTransaction_newest (lines : List Line) (mac : String) :
    (latestTransaction lines mac = none ↔ evidenceOf lines mac = []) ∧
    ∀ x ∈ latestTransaction lines mac, Newest (evidenceOf lines mac) (transactions lines mac) x := by
  obtain ⟨gs, hgs⟩ := @exists_sorted (evidenceOf lines mac)
  rw [← transactions_eq] at hgs
  constructor
  · have hlength : gs.length = (transactions lines mac).length := hgs.exchanges.length_eq
    have hempty : gs = [] ↔ evidenceOf lines mac = [] := by
      constructor
      · rintro rfl
        have hzip := hgs.perm.symm.eq_nil
        exact List.zipIdx_eq_nil_iff.mp hzip
      · intro hnone
        have hflat : gs.flatten = [] := by
          have hperm := hgs.perm
          rw [hnone] at hperm
          exact hperm.eq_nil
        cases gs with
        | nil => rfl
        | cons g gs =>
          rw [List.flatten_cons, List.append_eq_nil_iff] at hflat
          exact absurd hflat.1 (hgs.session g List.mem_cons_self).nonempty
    have hseen : transactions lines mac = [] ↔ gs = [] := by
      rw [← List.length_eq_zero_iff, ← hlength, List.length_eq_zero_iff]
    unfold latestTransaction
    dsimp only
    rw [List.getLast?_eq_none_iff, ← hempty, ← hseen]
    split_ifs with hcomplete
    · exact Iff.rfl
    · refine ⟨fun hnone => absurd hnone hcomplete, fun hnone => ?_⟩
      rw [hnone]
      rfl
  · intro x hx
    unfold latestTransaction at hx
    dsimp only at hx
    split_ifs at hx with hcomplete
    · have hall : (transactions lines mac).filter (fun _ => true) = transactions lines mac :=
        List.filter_eq_self.mpr fun _ _ => rfl
      rw [← hall] at hx
      obtain ⟨a, b, hsplit, -, hafter⟩ := split_of_getLast?_filter (Option.mem_def.mp hx)
      refine newest_of_split hgs hsplit (fun y hy hcomplete' => ?_) fun y hy _ => ?_
      · exact absurd hcomplete' (List.filter_eq_nil_iff.mp hcomplete y hy)
      · exact Bool.false_ne_true (hafter y hy).symm
    · obtain ⟨a, b, hsplit, hx', hafter⟩ := split_of_getLast?_filter (Option.mem_def.mp hx)
      refine newest_of_split hgs hsplit (fun _ _ _ => hx') fun y hy hsame => ?_
      rw [hafter y hy, hx'] at hsame
      cases hsame

end Groups

/-- A class list of a client at a second of the day. -/
def classesAt (second : ℤ) : Line where
  header := some ⟨toString second, some (second * 1000000), "DHCP4_CLASSES_ASSIGNED", some "ALL", "DHCPDISCOVER"⟩
  label := some ("aa:bb:cc:dd:ee:01", "")
  tid := some "0x1"
  row := none

/-- The times of two headers, where both can be read, are at most the gap from one another. -/
def Near (e e' : Evidence) : Prop :=
  ∀ t ∈ e.header.time, ∀ t' ∈ e'.header.time, t' - t ≤ TRANSACTION_GAP ∧ t - t' ≤ TRANSACTION_GAP

/-- Where the clock goes back, lines of one exchange are an hour from one another. -/
theorem not_groups_clockBack :
    ¬ ∃ groups, Groups Near [classesAt 3600, classesAt 0] "aa:bb:cc:dd:ee:01" groups := by
  rintro ⟨groups, h⟩
  have hone : (transactions [classesAt 3600, classesAt 0] "aa:bb:cc:dd:ee:01").length = 1 := by decide +kernel
  have hev : (evidenceOf [classesAt 3600, classesAt 0] "aa:bb:cc:dd:ee:01").map (·.header.time) =
      [some 3600000000, some 0] := by decide +kernel
  have hlength : groups.length = 1 := h.exchanges.length_eq.trans hone
  obtain ⟨g, rfl⟩ := List.length_eq_one_iff.mp hlength
  have hperm := h.perm
  rw [List.flatten_cons, List.flatten_nil, List.append_nil] at hperm
  have hall : g = evidenceOf [classesAt 3600, classesAt 0] "aa:bb:cc:dd:ee:01" :=
    (h.sublist g List.mem_cons_self).eq_of_length hperm.length_eq
  have hchain : (g.map (·.header.time)).IsChain fun a b => ∀ t ∈ a, ∀ t' ∈ b,
      t' - t ≤ TRANSACTION_GAP ∧ t - t' ≤ TRANSACTION_GAP :=
    (List.isChain_map _).mpr (h.chain g List.mem_cons_self)
  rw [hall, hev, List.isChain_cons_cons] at hchain
  have hgap := (hchain.1 3600000000 rfl 0 rfl).2
  exact absurd hgap (by decide)

end JenKea.KeaLog.Inputs
