import Mathlib.Logic.Function.Basic
import JenKea.Investigation.Session

/-!
# What the index lets go of

An entry leaves the index when it is stored without it. The world remembers, beside the stored index,
what was last seen of each server's file and daemon, and writes down each entry that leaves with what was
known then (`Departure`). What the acts keep is `Kept`: the record they work on holds every entry that is
stored, and every entry that left did so on a file without a marker and a daemon seen restored.
-/

namespace JenKea.Investigation

open Json ChangeSet Text

/-! ## The world -/

/-- An entry that left the index, with what was known then of its server: whether the file was seen or
put back without a marker, and what the daemon was last seen running. -/
structure Departure where
  sid : String
  entry : Entry
  file : Bool
  daemon : Option DaemonLogger

/-- The stored index, and what was last seen of each server. -/
structure World where
  setting : Stored
  file : String → Bool
  daemon : String → Option DaemonLogger
  left : List Departure := []

/-- The entries that are stored. -/
def Stored.entries : Stored → Servers
  | .servers entries => entries
  | .unreadable => []

/-- The entries that leave when these are stored. -/
def World.departures (w : World) (servers : Servers) : List Departure :=
  (w.setting.entries.map Prod.fst).filterMap fun sid =>
    match w.setting.entries.lookup sid, servers.lookup sid with
    | some entry, none => some { sid, entry, file := w.file sid, daemon := w.daemon sid }
    | _, _ => none

/-- Whether a change shows that the file carries no marker; `before` is what was known. -/
def ChangeAnswer.unmarked (clock : Clock) (edit : Edit) (before : Bool) : ChangeAnswer → Bool
  | .noservers | .aborted _ => before
  | .read cfg after =>
    match (edit.run clock cfg).2, after, edit with
    | .ok, .written, .clear _ => true
    | .ok, .written, .set _ => false
    | .ok, .rollbackFailed _, _ => false
    | _, _, _ => markerOf cfg = none

/-- The world after an operation answered. -/
def World.after (clock : Clock) (w : World) : (o : InvOp) → o.Result → World
  | .save servers, stored =>
    if stored then
      { w with setting := .servers servers, left := w.left ++ w.departures servers }
    else w
  | .configGet s _, reply =>
    { w with daemon := Function.update w.daemon s.sid (daemonLogger reply) }
  | .applyChange s edit _, answer =>
    { w with file := Function.update w.file s.sid (answer.unmarked clock edit (w.file s.sid)) }
  | .hostDisarm s, reply =>
    if putBackByHost reply then { w with file := Function.update w.file s.sid true } else w
  | .readConfig s, answer =>
    match answer with
    | some (some cfg) =>
      { w with file := Function.update w.file s.sid (decide (markerOf cfg = none)) }
    | _ => w
  | _, _ => w

/-- What the environment decides at a call: the answer of every operation. -/
abbrev Decision : Type := (o : InvOp) → o.Result

/-- What an operation answers: the stored index is the world's, the rest is decided. -/
def World.answer (w : World) (c : Decision) : (o : InvOp) → o.Result
  | .setting => w.setting
  | o => c o

/-- The operations. -/
def host (clock : Clock) : Handler InvI Decision World := fun o c w =>
  (w.answer c o, w.after clock o (w.answer c o))

/-- Where the logger is put back by a time, no file is read that carries a marker whose deadline is
after that time. -/
def Due (clock : Clock) (now : Option ℤ) (c : Decision) : Prop :=
  ∀ t ∈ now, ∀ s restart cfg after, c (.applyChange s (.clear (some t)) restart) = .read cfg after →
    ((Edit.clear (some t)).run clock cfg).2 = .nochange → markerOf cfg = none

/-! ## What an act keeps -/

/-- An entry is a later form of another: it stays contradictory, and, where it is the same session
(`own`), keeps its `restore` object. -/
structure Continues (own : Bool) (e e' : Entry) : Prop where
  contradiction : e.contradiction = true → e'.contradiction = true
  restore : own = true → ∀ r, e.restore = some r → e'.restore = some r

/-- The entry left on a file without a marker, while the daemon was seen restored: the daemon showed what
the `restore` object of the entry says, and the entry held no contradiction. -/
structure Departure.Settled (own : Bool) (d : Departure) : Prop where
  file : d.file = true
  daemon : ∃ e, Continues own d.entry e ∧ e.contradiction = false ∧
    classify d.daemon e.restore = .restored

/-- The record holds the entries that are stored, and those that left were settled. -/
structure Kept (own : Bool) (record : Record) (w : World) : Prop where
  held : ∀ sid e, w.setting.entries.lookup sid = some e →
    ∃ e', record.servers.lookup sid = some e' ∧ Continues own e e'
  left : ∀ d ∈ w.left, d.Settled own

/-- The entry is a later form of the record's. -/
def Fits (own : Bool) (record : Record) (sid : String) (e : Entry) : Prop :=
  ∀ m, record.servers.lookup sid = some m → Continues own m e

/-- The entries are alike in what decides whether they leave. -/
structure Alike (e e' : Entry) : Prop where
  contradiction : e'.contradiction = e.contradiction
  restore : e'.restore = e.restore

/-- The index and the files are as they were. -/
structure Quiet (w t : World) : Prop where
  setting : t.setting = w.setting
  left : t.left = w.left
  file : t.file = w.file

section Basics

variable {own : Bool} {e e' e'' : Entry} {record : Record} {sid k : String} {w t : World}
  {servers : Servers}

theorem Continues.refl (e : Entry) : Continues own e e := ⟨id, fun _ _ h => h⟩

theorem Continues.trans (h : Continues own e e') (h' : Continues own e' e'') :
    Continues own e e'' :=
  ⟨fun hc => h'.contradiction (h.contradiction hc),
    fun hown r hr => h'.restore hown r (h.restore hown r hr)⟩

theorem Alike.continues (h : Alike e e') : Continues own e e' :=
  ⟨fun hc => h.contradiction ▸ hc, fun _ _ hr => h.restore ▸ hr⟩

theorem Alike.refl (e : Entry) : Alike e e := ⟨rfl, rfl⟩

theorem Alike.trans (h : Alike e e') (h' : Alike e' e'') : Alike e e'' :=
  ⟨h'.contradiction.trans h.contradiction, h'.restore.trans h.restore⟩

theorem alike_observeFrom (e : Entry) (seen : Option DaemonLogger) : Alike e (observeFrom e seen) :=
  ⟨rfl, rfl⟩

theorem Fits.trans (h : Fits own record sid e) (h' : Continues own e e') : Fits own record sid e' :=
  fun m hm => (h m hm).trans h'

theorem Quiet.refl (w : World) : Quiet w w := ⟨rfl, rfl, rfl⟩

theorem Quiet.trans {u : World} (h : Quiet w t) (h' : Quiet t u) : Quiet w u :=
  ⟨h'.setting.trans h.setting, h'.left.trans h.left, h'.file.trans h.file⟩

theorem Kept.of_eq (h : Kept own record w) (hsetting : t.setting = w.setting)
    (hleft : t.left = w.left) : Kept own record t :=
  ⟨fun sid e he => h.held sid e (hsetting ▸ he), fun d hd => h.left d (hleft ▸ hd)⟩

theorem Kept.quiet (h : Kept own record w) (hq : Quiet w t) : Kept own record t :=
  h.of_eq hq.setting hq.left

theorem lookup_cons_ite {j : String} :
    ((j, e) :: servers).lookup k = if k = j then some e else servers.lookup k := by
  rw [List.lookup_cons]
  split_ifs with h
  · simp [h]
  · simp [beq_false_of_ne h]

theorem lookup_put : (servers.put sid e).lookup k = if k = sid then some e else servers.lookup k := by
  induction servers with
  | nil =>
    rw [Servers.put, lookup_cons_ite]
  | cons x servers ih =>
    obtain ⟨j, e'⟩ := x
    rw [Servers.put]
    split_ifs with hj hk hk
    · rw [lookup_cons_ite, if_pos hk]
    · rw [lookup_cons_ite, lookup_cons_ite, if_neg hk, if_neg fun h => hk (h.trans hj)]
    · rw [lookup_cons_ite, ih, if_pos hk, if_neg fun h => hj (h.symm.trans hk)]
    · rw [lookup_cons_ite, lookup_cons_ite, ih, if_neg hk]

theorem lookup_pop : (servers.pop sid).lookup k = if k = sid then none else servers.lookup k := by
  induction servers with
  | nil => simp [Servers.pop]
  | cons x servers ih =>
    obtain ⟨j, e'⟩ := x
    rw [Servers.pop] at ih ⊢
    rw [List.filter_cons]
    by_cases hj : j = sid
    · rw [if_neg (by simp [hj]), ih, lookup_cons_ite]
      split_ifs with hk hkj
      · rfl
      · exact absurd (hkj.trans hj) hk
      · rfl
    · rw [if_pos (by simp [hj]), lookup_cons_ite, lookup_cons_ite, ih]
      split_ifs with hkj hk
      · exact absurd (hkj.symm.trans hk) hj
      · rfl
      · rfl
      · rfl

theorem lookup_map {p : String × Entry → Bool} {f : Entry → Entry} :
    (servers.map fun x => if p x then (x.1, f x.2) else x).lookup k =
      (servers.lookup k).map fun e => if p (k, e) then f e else e := by
  induction servers with
  | nil => rfl
  | cons x servers ih =>
    obtain ⟨j, e'⟩ := x
    -- the key of an entry stays
    have hhead : (if p (j, e') then (j, f e') else (j, e')) = (j, if p (j, e') then f e' else e') := by
      split_ifs <;> rfl
    rw [List.map_cons, hhead, lookup_cons_ite, lookup_cons_ite, ih]
    by_cases hk : k = j
    · rw [if_pos hk, if_pos hk, hk, Option.map_some]
    · rw [if_neg hk, if_neg hk]

theorem lookup_hold (h : record.servers.lookup sid = some e) :
    (record.hold sid e').servers.lookup k =
      if k = sid then some e' else record.servers.lookup k := by
  rw [Record.hold, if_pos (by simp [h]), lookup_put]

/-- A record whose entries are later forms of the record's. -/
theorem Kept.later {record' : Record} (h : Kept own record w)
    (hlater : ∀ k m, record.servers.lookup k = some m →
      ∃ m', record'.servers.lookup k = some m' ∧ Continues own m m') : Kept own record' w := by
  refine ⟨fun k stored hstored => ?_, h.left⟩
  obtain ⟨m, hm, hcont⟩ := h.held k stored hstored
  obtain ⟨m', hm', hcont'⟩ := hlater k m hm
  exact ⟨m', hm', hcont.trans hcont'⟩

/-- A changed entry is still the one that the record holds. -/
theorem Kept.hold (h : Kept own record w) (hfits : Fits own record sid e) :
    Kept own (record.hold sid e) w := by
  refine h.later fun k m hm => ?_
  cases hlookup : record.servers.lookup sid with
  | none =>
    rw [Record.hold, if_neg (by simp [hlookup])]
    exact ⟨m, hm, .refl m⟩
  | some m' =>
    rw [lookup_hold hlookup]
    split_ifs with hk
    · subst hk
      exact ⟨e, rfl, hfits m hm⟩
    · exact ⟨m, hm, .refl m⟩

theorem fits_hold : Fits own (record.hold sid e) sid e := by
  intro m hm
  cases hlookup : record.servers.lookup sid with
  | none =>
    rw [Record.hold, if_neg (by simp [hlookup]), hlookup] at hm
    cases hm
  | some m' =>
    rw [lookup_hold hlookup, if_pos rfl] at hm
    cases hm
    exact .refl _

/-- The entries that leave are stored ones that are stored no longer. -/
theorem mem_departures {d : Departure} (h : d ∈ w.departures servers) :
    w.setting.entries.lookup d.sid = some d.entry ∧ servers.lookup d.sid = none ∧
      d.file = w.file d.sid ∧ d.daemon = w.daemon d.sid := by
  obtain ⟨sid, -, hsid⟩ := List.mem_filterMap.mp h
  split at hsid
  · next entry hentry hnone =>
    cases hsid
    exact ⟨hentry, hnone, rfl, rfl⟩
  · cases hsid

end Basics

/-! ## The operations -/

/-- Whatever the environment decides, so that `Due` holds, the program ends in `Q`. -/
abbrev Ensures (clock : Clock) (now : Option ℤ) {α : Type} (p : InvM α) (Q : α → World → Prop)
    (w : World) : Prop :=
  p.Ends (Prog.under (host clock) (Due clock now)) Q w

section Acts

variable {clock : Clock} {now : Option ℤ} {own : Bool} {record : Record} {sid : String}
  {e : Entry} {s : KeaServer} {w : World}

/-- A call ends in every answer of it that the environment can give. -/
theorem ask_ensures {o : InvOp} {Q : o.Result → World → Prop}
    (h : ∀ c, Due clock now c → Q (w.answer c o) (w.after clock o (w.answer c o))) :
    Ensures clock now (ask o) Q w :=
  Prog.Ends.call fun c => (Prog.ends_pure _).mpr (h c.1 c.2)

/-- A call that changes no index and no file. -/
theorem ask_quiet (o : InvOp)
    (h : ∀ a, Quiet w (w.after clock o a)) : Ensures clock now (ask o) (fun _ t => Quiet w t) w :=
  ask_ensures fun _ _ => h _

/-- `_record` reads the index that is stored. -/
theorem readRecord_ensures :
    Ensures clock now (readRecord clock) (fun record t => t = w ∧
      ∃ loaded, record = recordOf clock loaded w.setting) w := by
  refine Prog.Ends.bind (Q := fun stored t => t = w ∧ stored = w.setting)
    (ask_ensures fun _ _ => ⟨rfl, rfl⟩) ?_
  rintro stored t ⟨rfl, rfl⟩
  refine Prog.Ends.bind (Q := fun _ u => u = t) (ask_ensures fun _ _ => rfl) ?_
  rintro loaded u rfl
  exact (Prog.ends_pure _).mpr ⟨rfl, loaded, rfl⟩

/-- A record that is not damaged holds what is stored. -/
theorem entries_recordOf {loaded : Bool} {stored : Stored}
    (h : (recordOf clock loaded stored).damaged = false) :
    (recordOf clock loaded stored).servers = stored.entries := by
  cases stored with
  | unreadable => cases h
  | servers entries =>
    rw [recordOf] at h ⊢
    split_ifs at h ⊢ with hloaded hvalid
    rfl

/-- What `_save` stores, where it stores anything. -/
structure Saved (record : Record) (w : World) (r : Record × Bool) (t : World) : Prop where
  servers : r.1.servers = record.servers
  damaged : record.damaged = false → r.1.damaged = false
  world : t = w ∧ r.2 = false ∨
    r.2 = true ∧ t = { w with setting := .servers record.servers,
                              left := w.left ++ w.departures record.servers }

theorem save_ensures : Ensures clock now (save record) (Saved record w) w := by
  have hkept : Ensures clock now (keepDamaged record) (fun _ t => t = w) w := by
    rw [keepDamaged]
    split_ifs
    · exact ask_ensures fun _ _ => rfl
    · exact (Prog.ends_pure _).mpr rfl
  rw [save]
  split_ifs
  · exact (Prog.ends_pure _).mpr ⟨rfl, id, .inl ⟨rfl, rfl⟩⟩
  · refine hkept.bind ?_
    rintro kept t rfl
    split_ifs
    · refine Prog.Ends.bind (Q := fun stored u => u = t.after clock (.save record.servers) stored)
        (ask_ensures fun _ _ => rfl) ?_
      rintro stored u rfl
      refine (Prog.ends_pure _).mpr ⟨rfl, fun h => by simp [h], ?_⟩
      cases stored with
      | false => exact .inl ⟨rfl, rfl⟩
      | true => exact .inr ⟨rfl, rfl⟩
    · exact (Prog.ends_pure _).mpr ⟨rfl, id, .inl ⟨rfl, rfl⟩⟩

/-- A record that holds every stored entry is stored, and no entry leaves. -/
theorem Kept.saved {r : Record × Bool} {t : World} (h : Kept own record w)
    (hs : Saved record w r t) : Kept own r.1 t ∧ t.file = w.file := by
  obtain ⟨rfl, -⟩ | ⟨-, rfl⟩ := hs.world
  · exact ⟨⟨hs.servers ▸ h.held, h.left⟩, rfl⟩
  · refine ⟨⟨fun k e he => ⟨e, hs.servers ▸ he, .refl e⟩, fun d hd => ?_⟩, rfl⟩
    rcases List.mem_append.mp hd with hd | hd
    · exact h.left d hd
    · obtain ⟨hstored, hgone, -⟩ := mem_departures hd
      obtain ⟨e', he', -⟩ := h.held d.sid d.entry hstored
      rw [hgone] at he'
      cases he'

/-- `_put` keeps what is stored. -/
theorem put_ensures (h : Kept own record w) (hfits : Fits own record sid e) :
    Ensures clock now (put record sid e) (fun r t => Kept own r.1 t ∧ Fits own r.1 sid e ∧
      t.file = w.file ∧ ∀ m, r.1.servers.lookup sid = some m →
        m = e ∨ record.servers.lookup sid = some m) w := by
  rw [put]
  split_ifs with hdamaged
  · exact (Prog.ends_pure _).mpr ⟨h, hfits, rfl, fun m hm => .inr hm⟩
  · have hkept : Kept own { record with servers := record.servers.put sid e } w := by
      refine h.later fun k m hm => ?_
      dsimp only
      rw [lookup_put]
      split_ifs with hk
      · subst hk
        exact ⟨e, rfl, hfits m hm⟩
      · exact ⟨m, hm, .refl m⟩
    refine save_ensures.mono fun r t hs => ?_
    obtain ⟨hafter, hfile⟩ := hkept.saved hs
    have hown : ∀ m, r.1.servers.lookup sid = some m → m = e := by
      intro m hm
      rw [hs.servers, lookup_put, if_pos rfl] at hm
      exact (Option.some.inj hm).symm
    refine ⟨hafter, fun m hm => ?_, hfile, fun m hm => .inl (hown m hm)⟩
    rw [hown m hm]
    exact .refl e

/-- `_drop` lets an entry go whose file is restored and whose daemon was seen restored. -/
theorem drop_ensures (h : Kept own record w) (hfits : Fits own record sid e)
    (hfile : w.file sid = true) (hplain : e.contradiction = false)
    (hseen : classify (w.daemon sid) e.restore = .restored) :
    Ensures clock now (drop record sid) (fun r t => Kept own r.1 t ∧ Fits own r.1 sid e) w := by
  rw [drop]
  cases hgone : record.servers.lookup sid with
  | none => exact (Prog.ends_pure _).mpr ⟨h, hfits⟩
  | some gone =>
    -- the record with the entry put back reads as it did
    have hback : ∀ k, ((record.servers.pop sid).put sid gone).lookup k = record.servers.lookup k := by
      intro k
      rw [lookup_put, lookup_pop]
      split_ifs with hk
      · rw [hk, hgone]
      · rfl
    have hkeptBack : ∀ r : Record, r.servers = (record.servers.pop sid).put sid gone →
        Kept own r w ∧ Fits own r sid e := by
      intro r hr
      refine ⟨⟨fun k stored hstored => ?_, h.left⟩, fun m hm => hfits m ?_⟩
      · rw [hr, hback]
        exact h.held k stored hstored
      · rw [hr, hback] at hm
        exact hm
    dsimp only
    split_ifs with hdamaged
    · obtain ⟨hkept, hfits'⟩ := hkeptBack
        { record with servers := (record.servers.pop sid).put sid gone } rfl
      exact (Prog.ends_pure _).mpr ⟨hkept, hfits'⟩
    · refine save_ensures.bind ?_
      rintro ⟨after, stored⟩ t hs
      dsimp only
      obtain ⟨rfl, hstored⟩ | ⟨hstored, rfl⟩ := hs.world
      · dsimp only at hstored
        rw [if_neg (by simp [hstored])]
        obtain ⟨hkept, hfits'⟩ := hkeptBack
          { after with servers := (record.servers.pop sid).put sid gone } rfl
        exact (Prog.ends_pure _).mpr ⟨hkept, hfits'⟩
      · dsimp only at hstored
        rw [if_pos hstored]
        have hservers : after.servers = record.servers.pop sid := hs.servers
        refine (Prog.ends_pure _).mpr ⟨⟨fun k m hm => ⟨m, hservers ▸ hm, .refl m⟩, fun d hd => ?_⟩,
          fun m hm => ?_⟩
        · rcases List.mem_append.mp hd with hd | hd
          · exact h.left d hd
          · obtain ⟨hstored, hnone, hdfile, hdaemon⟩ := mem_departures hd
            obtain ⟨m, hm, hcont⟩ := h.held d.sid d.entry hstored
            -- only this entry is not among those that were stored
            have hsid : d.sid = sid := by
              by_contra hne
              dsimp only at hnone
              rw [lookup_pop, if_neg hne, hm] at hnone
              cases hnone
            subst hsid
            exact ⟨hdfile.trans hfile, e, hcont.trans (hfits m hm), hplain, hdaemon ▸ hseen⟩
        · rw [hservers, lookup_pop, if_pos rfl] at hm
          cases hm

/-- A call that leaves the world as it is. -/
theorem ask_same (o : InvOp) (h : ∀ a, w.after clock o a = w) :
    Ensures clock now (ask o) (fun _ t => t = w) w :=
  ask_ensures fun _ _ => h _

theorem reloadSupport_ensures : Ensures clock now (reloadSupport s) (fun _ t => t = w) w := by
  refine (ask_same (.listCommands s) fun _ => rfl).bind ?_
  rintro (_ | commands) t rfl
  · exact (Prog.ends_pure _).mpr rfl
  · exact (Prog.ends_pure _).mpr rfl

/-- The entry is as it was but for what the daemon was seen doing, which is what it was last seen
doing. -/
structure Observed (s : KeaServer) (w : World) (e e' : Entry) (t : World) : Prop where
  alike : Alike e e'
  quiet : Quiet w t
  daemon : e'.daemon = classify (t.daemon s.sid) e'.restore

theorem observe_ensures {waitS : ℕ} :
    Ensures clock now (observe s e waitS) (Observed s w e) w := by
  refine Prog.Ends.bind (Q := fun reply t => t = w.after clock (.configGet s waitS) reply)
    (ask_ensures fun _ _ => rfl) ?_
  rintro reply t rfl
  refine (Prog.ends_pure _).mpr ⟨alike_observeFrom _ _, ⟨rfl, rfl, rfl⟩, ?_⟩
  dsimp only [World.after]
  rw [Function.update_self]
  rfl

theorem settled_ensures (n : ℕ) : Ensures clock now (settled s n e) (Observed s w e) w := by
  induction n generalizing e w with
  | zero => exact observe_ensures
  | succ n ih =>
    refine observe_ensures.bind fun e' t hseen => ?_
    split_ifs
    · exact ih.mono fun e'' u hseen' =>
        ⟨hseen.alike.trans hseen'.alike, hseen.quiet.trans hseen'.quiet, hseen'.daemon⟩
    · exact (Prog.ends_pure _).mpr hseen

theorem restartStep_ensures : Ensures clock now (restartStep s) (fun _ t => t = w) w := by
  refine (ask_same (.restart s) fun _ => rfl).bind ?_
  rintro ok t rfl
  split_ifs
  · refine (ask_same (.recordDaemon s) fun _ => rfl).bind ?_
    rintro _ u rfl
    exact (Prog.ends_pure _).mpr rfl
  · exact (Prog.ends_pure _).mpr rfl

theorem lookWhen_ensures {verify : Bool} :
    Ensures clock now (lookWhen verify s e) (fun e' t => Alike e e' ∧ Quiet w t) w := by
  rw [lookWhen]
  split_ifs
  · exact observe_ensures.mono fun _ _ h => ⟨h.alike, h.quiet⟩
  · exact (Prog.ends_pure _).mpr ⟨.refl e, .refl w⟩

theorem daemonStep_ensures {useReload allowRestart verify : Bool} :
    Ensures clock now (daemonStep s e useReload allowRestart verify)
      (fun r t => Alike e r.1 ∧ Quiet w t) w := by
  cases useReload with
  | false =>
    refine restartStep_ensures.bind ?_
    rintro mode t rfl
    exact (Prog.ends_pure _).mpr ⟨.refl e, .refl t⟩
  | true =>
    refine (ask_same (.configReload s) fun _ => rfl).bind ?_
    rintro ok t rfl
    by_cases hok : ok = true
    · rw [if_pos hok]
      refine (ask_same (.recordDaemon s) fun _ => rfl).bind ?_
      rintro _ u rfl
      exact (Prog.ends_pure _).mpr ⟨.refl e, .refl u⟩
    · rw [if_neg hok]
      refine lookWhen_ensures.bind ?_
      rintro seen u ⟨halike, hquiet⟩
      split_ifs
      · refine (ask_same (.recordDaemon s) fun _ => rfl).bind ?_
        rintro _ v rfl
        exact (Prog.ends_pure _).mpr ⟨halike, hquiet⟩
      · refine restartStep_ensures.bind ?_
        rintro mode v rfl
        exact (Prog.ends_pure _).mpr ⟨halike, hquiet⟩
      · exact (Prog.ends_pure _).mpr ⟨halike, hquiet⟩

theorem phaseStep_ensures {reloads fresh : Bool} :
    Ensures clock now (phaseStep s e reloads fresh) (fun r t => Alike e r.1 ∧ Quiet w t) w := by
  rw [phaseStep]
  split_ifs
  · refine daemonStep_ensures.bind ?_
    rintro ⟨e', mode⟩ t ⟨halike, hquiet⟩
    exact (Prog.ends_pure _).mpr ⟨⟨halike.contradiction, halike.restore⟩, hquiet⟩
  · refine daemonStep_ensures.bind ?_
    rintro ⟨e', mode⟩ t ⟨halike, hquiet⟩
    exact (Prog.ends_pure _).mpr ⟨⟨halike.contradiction, halike.restore⟩, hquiet⟩

/-! ## Putting the logger back -/

/-- An act of a restore ends with the stored entries still held. -/
abbrev Keeps (clock : Clock) (now : Option ℤ) (own : Bool) (p : InvM (Record × Outcome))
    (w : World) : Prop :=
  Ensures clock now p (fun r t => Kept own r.1 t) w

/-- An act that stores an entry and is done. -/
theorem put_keeps {outcome : Outcome} (h : Kept own record w) (hfits : Fits own record sid e) :
    Keeps clock now own (do let (record, _) ← put record sid e; return (record, outcome)) w := by
  refine (put_ensures h hfits).bind ?_
  rintro ⟨record', stored⟩ t ⟨hkept, -⟩
  exact (Prog.ends_pure _).mpr hkept

theorem leftAlone_keeps (h : Kept own record w) (hfits : Fits own record sid e) :
    Keeps clock now own (leftAlone record sid e) w :=
  put_keeps h (hfits.trans ⟨id, fun _ _ hr => hr⟩)

/-- `_finish` drops an entry only on a file that is restored and a daemon that was seen restored. -/
theorem finish_keeps (h : Kept own record w) (hfits : Fits own record s.sid e)
    (hfile : w.file s.sid = true)
    (hseen : e.daemon = classify (w.daemon s.sid) e.restore) :
    Keeps clock now own (finish s record e) w := by
  rw [finish]
  by_cases hcontradiction : e.contradiction = true
  · rw [if_pos hcontradiction]
    exact leftAlone_keeps h hfits
  rw [if_neg hcontradiction]
  by_cases hrestored : e.daemon = .restored
  · rw [if_pos hrestored]
    refine (drop_ensures (h.hold hfits) fits_hold hfile (by simpa using hcontradiction)
      (hseen ▸ hrestored)).bind ?_
    rintro ⟨record', gone⟩ t ⟨hkept, hfits'⟩
    dsimp only
    split_ifs
    · exact (Prog.ends_pure _).mpr hkept
    · exact (Prog.ends_pure _).mpr (hkept.hold (hfits'.trans ⟨id, fun _ _ hr => hr⟩))
  · rw [if_neg hrestored]
    exact put_keeps h (hfits.trans ⟨id, fun _ _ hr => hr⟩)

/-- `_daemon_phase`, on a file that is restored. -/
theorem daemonPhase_keeps {fresh : Bool} (h : Kept own record w) (hfits : Fits own record s.sid e)
    (hfile : w.file s.sid = true) : Keeps clock now own (daemonPhase s record e fresh) w := by
  refine reloadSupport_ensures.bind ?_
  rintro support t rfl
  dsimp only
  split
  · exact put_keeps h (hfits.trans ⟨id, fun _ _ hr => hr⟩)
  · refine phaseStep_ensures.bind ?_
    rintro ⟨e', mode⟩ u ⟨halike, hquiet⟩
    refine observe_ensures.bind fun e'' v hseen => ?_
    have hfits'' : Fits own record s.sid e'' := hfits.trans (halike.trans hseen.alike).continues
    have hquiet' := hquiet.trans hseen.quiet
    split
    · exact finish_keeps (h.quiet hquiet') hfits'' (hquiet'.file ▸ hfile) hseen.daemon
    · exact put_keeps (h.quiet hquiet') (hfits''.trans ⟨id, fun _ _ hr => hr⟩)

/-! ## The file -/

theorem clear_code (cfg : Fields) (ahead : Option (Json → Bool)) :
    (clearInvestigationLogging cfg ahead).2 = .ok ∨
      (clearInvestigationLogging cfg ahead).2 = .nochange ∨
      (clearInvestigationLogging cfg ahead).2 = .markerInvalid := by
  unfold clearInvestigationLogging
  split
  · exact .inr (.inr rfl)
  · split
    · exact .inr (.inl rfl)
    · split
      · exact .inr (.inl rfl)
      · split
        · split
          · split
            · exact .inr (.inl rfl)
            · split
              · dsimp only
                split <;> exact .inl rfl
              · exact .inr (.inr rfl)
          · exact .inr (.inl rfl)
        · exact .inr (.inl rfl)

/-- Without a time to wait for, there is nothing to put back only where there is no marker. -/
theorem markerOf_of_nochange {cfg : Fields}
    (h : (clearInvestigationLogging cfg none).2 = .nochange) : markerOf cfg = none := by
  by_contra hmarked
  obtain ⟨v, hv⟩ := Option.ne_none_iff_exists'.mp hmarked
  have hvalid : validateInvestigationMarker cfg = "" := by
    by_contra hinvalid
    rw [clearInvestigationLogging, if_pos hinvalid] at h
    cases h
  have hobj : ∃ marker, v = .obj marker := by
    rw [validateInvestigationMarker, hv] at hvalid
    cases v with
    | obj marker => exact ⟨marker, rfl⟩
    | _ => exact absurd hvalid (show "the marker is not an object" ≠ "" by decide)
  obtain ⟨marker, rfl⟩ := hobj
  rw [clearInvestigationLogging, if_neg (not_not.mpr hvalid)] at h
  rw [markerOf] at hv
  obtain ⟨⟨sec, loggers⟩, hloggers, hv⟩ := Option.bind_eq_some_iff.mp hv
  obtain ⟨entry, hentry, hv⟩ := Option.bind_eq_some_iff.mp hv
  rw [hloggers] at h
  dsimp only at h hentry hv
  rw [hentry] at h
  dsimp only at h
  split at hv
  · next context hcontext =>
    rw [hcontext] at h
    dsimp only at h
    rw [hv] at h
    dsimp only [Option.any] at h
    rw [if_neg (by simp)] at h
    split at h
    · split at h <;> cases h
    · cases h
  · cases hv

/-- A change that put the file back, or that found nothing to put back, leaves no marker in it. -/
theorem unmarked_clear {c : Decision} {restart before : Bool} (hdue : Due clock now c)
    (h : ((c (.applyChange s (.clear now) restart)).result clock (.clear now)).1 = .ok ∨
      ((c (.applyChange s (.clear now) restart)).result clock (.clear now)).1 = .nothing) :
    (c (.applyChange s (.clear now) restart)).unmarked clock (.clear now) before = true := by
  cases hanswer : c (.applyChange s (.clear now) restart) with
  | noservers =>
    rw [hanswer] at h
    rcases h with h | h <;> cases h
  | aborted code =>
    rw [hanswer] at h
    rcases h with h | h <;> cases h
  | read cfg after =>
    rw [hanswer] at h
    dsimp only [ChangeAnswer.result, ChangeAnswer.unmarked] at h ⊢
    have hcode := clear_code cfg (now.map clock.ahead)
    change ((Edit.clear now).run clock cfg).2 = _ ∨ ((Edit.clear now).run clock cfg).2 = _ ∨
      ((Edit.clear now).run clock cfg).2 = _ at hcode
    rcases hcode with hcode | hcode | hcode
    · rw [hcode] at h ⊢
      cases after with
      | written => rfl
      | _ => rcases h with h | h <;> cases h
    · rw [hcode]
      have hnone : markerOf cfg = none := by
        cases now with
        | none => exact markerOf_of_nochange hcode
        | some t => exact hdue t rfl s restart cfg after hanswer hcode
      simp [hnone]
    · rw [hcode] at h
      rcases h with h | h <;> cases h

/-- A change of the file leaves the index, and shows whether the file carries a marker. -/
theorem change_ensures {refuseUnknown allowRestart : Bool} :
    Ensures clock now (change s (.clear now) refuseUnknown allowRestart) (fun r t =>
      t.setting = w.setting ∧ t.left = w.left ∧ ∀ answer, r.1 = some answer →
        ((answer.result clock (.clear now)).1 = .ok ∨
          (answer.result clock (.clear now)).1 = .nothing) → t.file s.sid = true) w := by
  refine reloadSupport_ensures.bind ?_
  rintro support t rfl
  split
  · exact (Prog.ends_pure _).mpr ⟨rfl, rfl, fun _ h => nomatch h⟩
  · refine Prog.Ends.bind (Q := fun answer u => u.setting = t.setting ∧ u.left = t.left ∧
      (((answer : ChangeAnswer).result clock (.clear now)).1 = .ok ∨
        (answer.result clock (.clear now)).1 = .nothing → u.file s.sid = true))
      (ask_ensures fun c hdue => ⟨rfl, rfl, fun h => ?_⟩) ?_
    · dsimp only [World.after]
      rw [Function.update_self]
      exact unmarked_clear hdue h
    · rintro answer u ⟨hsetting, hleft, hfile⟩
      refine (Prog.ends_pure _).mpr ⟨hsetting, hleft, fun answer' h => ?_⟩
      cases h
      exact hfile

/-- The host's answer leaves the index, and leaves the file restored where it put it back. -/
theorem hostDisarm_ensures : Ensures clock now (ask (.hostDisarm s)) (fun reply t =>
    t.setting = w.setting ∧ t.left = w.left ∧ (putBackByHost reply = true → t.file s.sid = true)) w := by
  refine ask_ensures fun c _ => ?_
  dsimp only [World.after]
  split_ifs with hback
  · exact ⟨rfl, rfl, fun _ => Function.update_self ..⟩
  · exact ⟨rfl, rfl, fun h => absurd h hback⟩

theorem abandonHostArm_ensures : Ensures clock now (abandonHostArm s) (fun _ t =>
    t.setting = w.setting ∧ t.left = w.left) w := by
  refine hostDisarm_ensures.bind ?_
  rintro reply t ⟨hsetting, hleft, -⟩
  exact (Prog.ends_pure _).mpr ⟨hsetting, hleft⟩

/-- `_restore_via_host`, with the host or, where it refuses, with the entry that says why. -/
theorem restoreViaHost_ensures (h : Kept own record w) (hfits : Fits own record s.sid e) :
    Ensures clock now (restoreViaHost clock s record e) (fun r t => match r with
      | .inl (record', e') => Kept own record' t ∧ Fits own record' s.sid e'
      | .inr (record', _) => Kept own record' t) w := by
  refine hostDisarm_ensures.bind ?_
  rintro reply t ⟨hsetting, hleft, hfile⟩
  have hkept := h.of_eq hsetting hleft
  by_cases hback : putBackByHost reply = true
  · rw [if_neg (not_not.mpr hback)]
    refine (ask_same .now fun _ => rfl).bind ?_
    rintro at_ u rfl
    dsimp only
    generalize hlater : (if howOf reply = "restart" then _ else _ : Entry) = later
    have halike : Alike e later := by
      rw [← hlater]
      split_ifs <;> exact ⟨rfl, rfl⟩
    refine (put_ensures hkept (hfits.trans halike.continues)).bind ?_
    rintro ⟨record', stored⟩ v ⟨hkept', hfits', hvfile, -⟩
    refine (settled_ensures _).bind fun e' x hseen => ?_
    refine (ask_same (.recordDaemon s) fun _ => rfl).bind ?_
    rintro _ y rfl
    have hkept'' := hkept'.quiet hseen.quiet
    have hfits'' : Fits own record' s.sid e' := Fits.trans hfits' hseen.alike.continues
    have hrestored : y.file s.sid = true := by
      rw [hseen.quiet.file, hvfile]
      exact hfile hback
    split_ifs
    · refine (daemonPhase_keeps hkept'' hfits'' hrestored).bind ?_
      rintro ⟨record'', outcome⟩ z hkept
      exact (Prog.ends_pure _).mpr hkept
    · refine (finish_keeps hkept'' hfits'' hrestored hseen.daemon).bind ?_
      rintro ⟨record'', outcome⟩ z hkept
      exact (Prog.ends_pure _).mpr hkept
  · rw [if_pos hback]
    exact (Prog.ends_pure _).mpr ⟨hkept.hold (hfits.trans ⟨id, fun _ _ hr => hr⟩), fits_hold⟩

/-- The restore goes on once the file is written. -/
theorem restoreWritten_keeps {captured : Option Json} {folded : Bool} (h : Kept own record w)
    (hfits : Fits own record s.sid e) (hfile : w.file s.sid = true) :
    Keeps clock now own (restoreWritten s record e captured folded) w := by
  have hcont : Continues own e { e with restore := e.restore.or captured } :=
    ⟨id, fun _ r hr => by simp [hr]⟩
  rw [restoreWritten]
  dsimp only
  split_ifs
  · refine observe_ensures.bind fun e' t hseen => ?_
    have hfits' : Fits own record s.sid e' := by
      refine (hfits.trans hcont).trans ?_
      exact ⟨fun hc => hseen.alike.contradiction ▸ hc, fun _ r hr => hseen.alike.restore ▸ hr⟩
    exact finish_keeps ((h.quiet hseen.quiet).hold hfits') fits_hold (hseen.quiet.file ▸ hfile)
      hseen.daemon
  · refine Prog.Ends.bind (put_ensures h ((hfits.trans hcont).trans ?_)) ?_
    · exact ⟨id, fun _ _ hr => hr⟩
    · rintro ⟨record', stored⟩ t ⟨hkept, hfits', htfile, -⟩
      exact daemonPhase_keeps hkept hfits' (htfile ▸ hfile)

/-- The restore goes on where there was nothing to write. -/
theorem restoreNothing_keeps {until? : Option ℤ} (h : Kept own record w)
    (hfits : Fits own record s.sid e) (hfile : w.file s.sid = true) :
    Keeps clock now own (restoreNothing s record e until?) w := by
  have hfits' : Fits own record s.sid { e with file := .restored } :=
    hfits.trans ⟨id, fun _ _ hr => hr⟩
  rw [restoreNothing]
  dsimp only
  split
  · exact leftAlone_keeps h hfits'
  · refine observe_ensures.bind fun e' t hseen => ?_
    have hkept := h.quiet hseen.quiet
    have hfits'' : Fits own record s.sid e' := Fits.trans hfits' hseen.alike.continues
    have htfile : t.file s.sid = true := hseen.quiet.file ▸ hfile
    split
    · exact finish_keeps hkept hfits'' htfile hseen.daemon
    · split
      · exact leftAlone_keeps hkept hfits''
      · refine Prog.Ends.bind (put_ensures hkept (hfits''.trans ?_)) ?_
        · exact ⟨id, fun _ _ hr => hr⟩
        · rintro ⟨record', stored⟩ u ⟨hkept', hfitted, hufile, -⟩
          dsimp only
          split
          · exact (Prog.ends_pure _).mpr hkept'
          · exact daemonPhase_keeps hkept' hfitted (hufile ▸ htfile)

/-- The entry that a restore works on: the one held, or a new one where none is. -/
theorem fresh_ensures {held : Option Entry} :
    Ensures clock now (restoreFile.fresh clock s now held) (fun e t => t = w ∧
      ∀ e', held = some e' → e = e') w := by
  cases held with
  | some e => exact (Prog.ends_pure _).mpr ⟨rfl, fun e' h => Option.some.inj h⟩
  | none =>
    cases now with
    | some t => exact (Prog.ends_pure _).mpr ⟨rfl, fun e' h => nomatch h⟩
    | none =>
      refine (ask_same .now fun _ => rfl).bind ?_
      rintro at_ t rfl
      exact (Prog.ends_pure _).mpr ⟨rfl, fun e' h => nomatch h⟩

/-- Jen's own write of the file. -/
theorem restoreFile_keeps {held : Option Entry} (h : Kept own record w)
    (hheld : ∀ e, held = some e → Fits own record s.sid e)
    (hnone : held = none → record.servers.lookup s.sid = none) :
    Keeps clock now own (restoreFile clock s record held now) w := by
  have hfresh : ∀ e, (∀ e', held = some e' → e = e') → Fits own record s.sid e := by
    intro e he
    cases held with
    | some e' => exact he e' rfl ▸ hheld e' rfl
    | none => exact fun m hm => nomatch hm.symm.trans (hnone rfl)
  refine change_ensures.bind ?_
  rintro ⟨answer, support⟩ t ⟨hsetting, hleft, hfile⟩
  have hkept := h.of_eq hsetting hleft
  have hrestored : ∀ status, ((answer.getD .noservers).result clock (.clear now)).1 = status →
      status = .ok ∨ status = .nothing → t.file s.sid = true := by
    rintro status rfl hstatus
    cases answer with
    | none => rcases hstatus with hstatus | hstatus <;> cases hstatus
    | some answer => exact hfile answer rfl hstatus
  dsimp only
  generalize hresult : (answer.getD .noservers).result clock (.clear now) = result
  obtain ⟨status, code⟩ := result
  rw [hresult] at hrestored
  dsimp only at hrestored ⊢
  split
  · refine fresh_ensures.bind ?_
    rintro e u ⟨rfl, he⟩
    exact put_keeps hkept ((hfresh e he).trans ⟨id, fun _ _ hr => hr⟩)
  split
  · next hok =>
    refine fresh_ensures.bind ?_
    rintro e u ⟨rfl, he⟩
    exact restoreWritten_keeps hkept (hfresh e he) (hrestored _ rfl (.inl hok))
  split
  · next hnothing =>
    cases held with
    | none => exact (Prog.ends_pure _).mpr hkept
    | some e => exact restoreNothing_keeps hkept (hheld e rfl) (hrestored _ rfl (.inr hnothing))
  · cases held with
    | none => exact (Prog.ends_pure _).mpr hkept
    | some e =>
      refine put_keeps hkept ((hheld e rfl).trans ?_)
      split_ifs <;> exact ⟨id, fun _ _ hr => hr⟩

/-- `_restore_core`. -/
theorem restoreCore_keeps (h : Kept own record w) :
    Keeps clock now own (restoreCore clock s record now) w := by
  rw [restoreCore]
  cases hlookup : record.servers.lookup s.sid with
  | none => exact restoreFile_keeps h (fun _ he => nomatch he) fun _ => hlookup
  | some e =>
    have hfits : Fits own record s.sid e := by
      intro m hm
      rw [hlookup] at hm
      cases hm
      exact .refl _
    dsimp only
    split
    · refine (restoreViaHost_ensures h hfits).bind ?_
      rintro (⟨record', e'⟩ | ⟨record', outcome⟩) t hr
      · exact restoreFile_keeps hr.1 (fun e'' he => Option.some.inj he ▸ hr.2) fun he => nomatch he
      · exact (Prog.ends_pure _).mpr hr
    · exact restoreFile_keeps h (fun e' he => Option.some.inj he ▸ hfits) fun he => nomatch he

/-- `_restore`. -/
theorem restore_keeps (h : Kept own record w) :
    Keeps clock now own (restore clock s record now) w := by
  refine (restoreCore_keeps h).bind ?_
  rintro ⟨record', outcome⟩ t hkept
  dsimp only
  split
  · refine abandonHostArm_ensures.bind ?_
    rintro _ u ⟨hsetting, hleft⟩
    exact (Prog.ends_pure _).mpr (hkept.of_eq hsetting hleft)
  · exact (Prog.ends_pure _).mpr hkept

/-- A record that is read anew holds what is stored. -/
theorem kept_recordOf {loaded : Bool} (hleft : w.left = [])
    (h : (recordOf clock loaded w.setting).damaged = false) :
    Kept own (recordOf clock loaded w.setting) w :=
  ⟨fun k e he => ⟨e, entries_recordOf h ▸ he, .refl e⟩, fun d hd => by simp [hleft] at hd⟩

theorem turnOff_ensures (hleft : w.left = []) :
    Ensures clock none (turnOff clock s) (fun _ t => ∀ d ∈ t.left, d.Settled true) w := by
  have hstart : ∀ d ∈ w.left, d.Settled true := fun d hd => by simp [hleft] at hd
  refine readRecord_ensures.bind ?_
  rintro record t ⟨rfl, loaded, rfl⟩
  split_ifs with hdamaged
  · exact (Prog.ends_pure _).mpr hstart
  · exact (Prog.ends_pure _).mpr hstart
  · have hkept : Kept true (recordOf clock loaded t.setting) t :=
      kept_recordOf hleft (by simpa using hdamaged)
    refine (restore_keeps hkept).bind ?_
    rintro ⟨record', outcome⟩ u hkept
    exact (Prog.ends_pure _).mpr hkept.left

end Acts

end JenKea.Investigation
