import JenKea.KeaLog.Problems
import Mathlib.Data.List.Dedup
import Mathlib.Data.List.Induction
import Mathlib.Data.List.Perm.Subperm

/-!
# One event for each NAK

The walk keeps the event of a NAK under its client and transaction id, and never lets it go: every later NAK of the same
client under the same id is merged into the first one. So each NAK is an event of its own just where no client uses a
transaction id for two of them.
-/

namespace JenKea.KeaLog

/-- A line of a NAK of a client in a transaction. -/
def Line.isNakOf (k : Key) (l : Line) : Bool := l.kind = some .nak ∧ l.mac = some k.1 ∧ l.tid = some k.2

/-- A line of a NAK has a time, a client and a transaction id. -/
def Line.Readable (l : Line) : Prop :=
  l.kind = some .nak → l.ts.isSome ∧ ∃ mac tid, l.mac = some mac ∧ l.tid = some tid ∧ mac ≠ "" ∧ tid ≠ ""

/-- The address of the first of the lines that name one. -/
def firstNamed (ls : List Line) : String := ((ls.map Line.clientIp).find? fun ip => ip ≠ "").getD ""

/-- An event of a NAK, by the lines of its client and transaction: it has the time of the first one, and the address of
the first one that names one. -/
structure Tells (lines : List Line) (e : Event) : Prop where
  first : ∃ l rest, lines.filter (Line.isNakOf e.key) = l :: rest ∧ l.ts = some e.ts
  named : e.ip = firstNamed (lines.filter (Line.isNakOf e.key))

/-- What the walk has kept of the NAKs of the lines so far: one event for each client and transaction, and its place. -/
structure Told (lines : List Line) (s : Walk) : Prop where
  index : ∀ k i, s.naks.get k = some i ↔ ∃ e, s.events[i]? = some e ∧ e.kind = .nak ∧ e.key = k
  tells : ∀ e ∈ s.events, e.kind = .nak → Tells lines e
  all : ∀ l ∈ lines, ∀ k, l.isNakOf k = true → ∃ i, s.naks.get k = some i

theorem getElem?_snoc {α : Type} {l : List α} {a b : α} {i : ℕ} :
    (l ++ [a])[i]? = some b ↔ l[i]? = some b ∨ i = l.length ∧ a = b := by
  rw [List.getElem?_append]
  by_cases hi : i < l.length
  · rw [if_pos hi]
    exact ⟨.inl, fun h => h.resolve_right fun hlast => by omega⟩
  · rw [if_neg hi, List.getElem?_eq_none (Nat.not_lt.mp hi), List.getElem?_singleton]
    split_ifs with hlast
    · have hlength : i = l.length := by omega
      exact ⟨fun h => .inr ⟨hlength, Option.some.inj h⟩, fun h => congrArg some (h.resolve_left nofun).2⟩
    · exact ⟨nofun, fun h => absurd (h.resolve_left nofun).1 (by omega)⟩

section Lines

variable {l : Line} {k : Key} {lines ls : List Line} {s : Walk} {e : Event}

theorem isNakOf_iff : l.isNakOf k = true ↔ l.kind = some .nak ∧ l.mac = some k.1 ∧ l.tid = some k.2 :=
  decide_eq_true_iff

/-- A line is of one NAK's client and transaction at most. -/
theorem key_eq_of_isNakOf {k' : Key} (h : l.isNakOf k = true) (h' : l.isNakOf k' = true) : k = k' := by
  obtain ⟨-, hmac, htid⟩ := isNakOf_iff.mp h
  obtain ⟨-, hmac', htid'⟩ := isNakOf_iff.mp h'
  exact Prod.ext (Option.some.inj (hmac.symm.trans hmac')) (Option.some.inj (htid.symm.trans htid'))

theorem filter_snoc_of_not (h : l.isNakOf k = false) :
    (lines ++ [l]).filter (Line.isNakOf k) = lines.filter (Line.isNakOf k) := by
  rw [List.filter_append, List.filter_cons_of_neg (by rw [h]; nofun), List.filter_nil, List.append_nil]

theorem filter_snoc_of_pos (h : l.isNakOf k = true) :
    (lines ++ [l]).filter (Line.isNakOf k) = lines.filter (Line.isNakOf k) ++ [l] := by
  rw [List.filter_append, List.filter_cons_of_pos h, List.filter_nil]

/-- The first address that is named stays the first. -/
theorem firstNamed_snoc : firstNamed (ls ++ [l]) = if firstNamed ls = "" then l.clientIp else firstNamed ls := by
  unfold firstNamed
  rw [List.map_append, List.find?_append]
  cases hfound : (ls.map Line.clientIp).find? fun ip => ip ≠ "" with
  | none =>
    rw [Option.none_or, Option.getD_none, if_pos rfl]
    by_cases hip : l.clientIp = ""
    · rw [List.map_singleton, hip]
      rfl
    · rw [List.map_singleton, List.find?_singleton, if_pos (decide_eq_true hip), Option.getD_some]
  | some ip =>
    have hip : ip ≠ "" := by simpa using List.find?_some hfound
    rw [Option.some_or, Option.getD_some, if_neg hip]

/-- What the walk notes before it looks for a problem leaves the events. -/
theorem record_kept : ((s.recordLease l).recordSubnet l).events = s.events ∧
    ((s.recordLease l).recordSubnet l).naks = s.naks := by
  have hlease : (s.recordLease l).events = s.events ∧ (s.recordLease l).naks = s.naks := by
    unfold Walk.recordLease
    split_ifs
    · split <;> exact ⟨rfl, rfl⟩
    · exact ⟨rfl, rfl⟩
  unfold Walk.recordSubnet
  split_ifs
  · split <;> exact hlease
  · exact hlease

/-- The event of a line of a NAK. -/
theorem eventOf_nak {ts : ℤ} {mac : String} (hkind : l.kind = some .nak) (hts : l.ts = some ts)
    (hmac : l.mac = some mac) (hne : mac ≠ "") : ∃ e, s.eventOf l = some e ∧ e.kind = .nak ∧ e.mac = mac ∧
      e.tid = l.tid.getD "" ∧ e.ts = ts ∧ e.ip = l.clientIp := by
  have hnot : ¬ Kind.nak = Kind.ddnsFailed := by decide
  unfold Walk.eventOf
  rw [hkind, hts]
  dsimp only
  rw [if_neg hnot, hmac, Option.getD_some, if_neg hne]
  exact ⟨_, rfl, rfl, rfl, rfl, rfl, rfl⟩

theorem kind_eventOf (h : s.eventOf l = some e) : l.kind = some e.kind := by
  unfold Walk.eventOf at h
  cases hkind : l.kind with
  | none =>
    rw [hkind] at h
    cases h
  | some kind =>
    cases hts : l.ts with
    | none =>
      rw [hkind, hts] at h
      cases h
    | some ts =>
      rw [hkind, hts] at h
      dsimp only at h
      generalize (if kind = .ddnsFailed then s.ddnsClient l else (l.mac.getD "", l.clientIp)) = client at h
      by_cases hnone : client.1 = ""
      · rw [if_pos hnone] at h
        cases h
      · rw [if_neg hnone] at h
        obtain rfl := Option.some.inj h
        rfl

end Lines

/-! ## One line -/

section Step

variable {l : Line} {lines : List Line} {s : Walk} {e : Event} {i : ℕ}

theorem Told.of_eq {t : Walk} (h : Told lines s) (hevents : t.events = s.events) (hnaks : t.naks = s.naks) :
    Told lines t := by
  refine ⟨fun k i => ?_, fun e he => ?_, fun l hl k hk => ?_⟩
  · rw [hevents, hnaks]
    exact h.index k i
  · rw [hevents] at he
    exact h.tells e he
  · rw [hnaks]
    exact h.all l hl k hk

/-- The line is of no NAK. -/
theorem Told.skip (h : Told lines s) (hl : ∀ k, l.isNakOf k = false) : Told (lines ++ [l]) s := by
  refine ⟨h.index, fun e he hkind => ?_, fun l' hl' k hk => ?_⟩
  · obtain ⟨hfirst, hnamed⟩ := h.tells e he hkind
    refine ⟨?_, ?_⟩
    · rw [filter_snoc_of_not (hl e.key)]
      exact hfirst
    · rw [filter_snoc_of_not (hl e.key)]
      exact hnamed
  · rcases List.mem_append.mp hl' with hmem | hmem
    · exact h.all l' hmem k hk
    · rw [List.mem_singleton.mp hmem, hl k] at hk
      cases hk

/-- Another event is added. -/
theorem Told.other (h : Told lines s) (hkind : e.kind ≠ .nak) :
    Told lines { s with events := s.events ++ [e] } := by
  refine ⟨fun k i => (h.index k i).trans ⟨?_, ?_⟩, fun e' he' hnak => ?_, h.all⟩
  · rintro ⟨e', hget, hnak, hkey⟩
    exact ⟨e', getElem?_snoc.mpr (.inl hget), hnak, hkey⟩
  · rintro ⟨e', hget, hnak, hkey⟩
    rcases getElem?_snoc.mp hget with hget | ⟨-, rfl⟩
    · exact ⟨e', hget, hnak, hkey⟩
    · exact absurd hnak hkind
  · rcases List.mem_append.mp he' with hmem | hmem
    · exact h.tells e' hmem hnak
    · rw [List.mem_singleton.mp hmem] at hnak
      exact absurd hnak hkind

/-- The place of an event of a NAK is the one that is kept. -/
theorem Told.place (h : Told lines s) (he : e ∈ s.events) (hkind : e.kind = .nak) :
    ∃ i, s.naks.get e.key = some i ∧ s.events[i]? = some e := by
  obtain ⟨i, hi⟩ := List.mem_iff_getElem?.mp he
  exact ⟨i, (h.index e.key i).mpr ⟨e, hi, hkind, rfl⟩, hi⟩

/-- The first line of a NAK. -/
theorem Told.new (h : Told lines s) (hl : l.isNakOf e.key = true) (hkind : e.kind = .nak) (hts : l.ts = some e.ts)
    (hip : e.ip = l.clientIp) (hget : s.naks.get e.key = none) :
    Told (lines ++ [l]) { s with events := s.events ++ [e], naks := s.naks.put e.key s.events.length } := by
  have hnone : lines.filter (Line.isNakOf e.key) = [] := by
    refine List.filter_eq_nil_iff.mpr fun l' hl' hk => ?_
    obtain ⟨i, hi⟩ := h.all l' hl' e.key hk
    rw [hget] at hi
    cases hi
  refine ⟨fun k i => ?_, fun e' he' hnak => ?_, fun l' hl' k hk => ?_⟩
  · dsimp only
    rw [Map.get_put]
    split_ifs with hk
    · constructor
      · intro hlast
        exact ⟨e, getElem?_snoc.mpr (.inr ⟨(Option.some.inj hlast).symm, rfl⟩), hkind, hk.symm⟩
      · rintro ⟨e', hget', hnak, hkey⟩
        rcases getElem?_snoc.mp hget' with hget' | ⟨hlast, -⟩
        · have hold := (h.index k i).mpr ⟨e', hget', hnak, hkey⟩
          rw [hk, hget] at hold
          cases hold
        · rw [hlast]
    · rw [h.index k i]
      constructor
      · rintro ⟨e', hget', hnak, hkey⟩
        exact ⟨e', getElem?_snoc.mpr (.inl hget'), hnak, hkey⟩
      · rintro ⟨e', hget', hnak, hkey⟩
        rcases getElem?_snoc.mp hget' with hget' | ⟨-, rfl⟩
        · exact ⟨e', hget', hnak, hkey⟩
        · exact absurd hkey.symm hk
  · rcases List.mem_append.mp he' with hmem | hmem
    · have hother : l.isNakOf e'.key = false := by
        refine Bool.eq_false_iff.mpr fun hl' => ?_
        obtain ⟨i, hi, -⟩ := h.place hmem hnak
        rw [key_eq_of_isNakOf hl' hl, hget] at hi
        cases hi
      obtain ⟨hfirst, hnamed⟩ := h.tells e' hmem hnak
      exact ⟨by rwa [filter_snoc_of_not hother], by rwa [filter_snoc_of_not hother]⟩
    · rw [List.mem_singleton.mp hmem]
      have hfilter : (lines ++ [l]).filter (Line.isNakOf e.key) = [l] := by
        rw [filter_snoc_of_pos hl, hnone, List.nil_append]
      refine ⟨⟨l, [], hfilter, hts⟩, ?_⟩
      rw [hfilter, hip]
      have hsnoc := @firstNamed_snoc l []
      have hempty : firstNamed [] = "" := rfl
      rw [List.nil_append, hempty, if_pos rfl] at hsnoc
      exact hsnoc.symm
  · dsimp only
    rw [Map.get_put]
    rcases List.mem_append.mp hl' with hmem | hmem
    · obtain ⟨i, hi⟩ := h.all l' hmem k hk
      split_ifs
      · exact ⟨_, rfl⟩
      · exact ⟨i, hi⟩
    · rw [List.mem_singleton.mp hmem] at hk
      rw [if_pos (key_eq_of_isNakOf hk hl)]
      exact ⟨_, rfl⟩

/-- Another line of a NAK, or of a later one. -/
theorem Told.merged (h : Told lines s) (hl : l.isNakOf e.key = true) (hip : e.ip = l.clientIp)
    (hget : s.naks.get e.key = some i) :
    Told (lines ++ [l]) { s with events := s.events.modify i fun seen => seen.merge e } := by
  have hmodify : ∀ j e', (s.events.modify i fun seen => seen.merge e)[j]? = some e' ↔
      ∃ seen, s.events[j]? = some seen ∧ (if i = j then seen.merge e else seen) = e' := by
    intro j e'
    rw [List.getElem?_modify]
    exact Option.map_eq_some_iff
  have hsame : ∀ j (seen : Event), (if i = j then seen.merge e else seen).kind = seen.kind ∧
      (if i = j then seen.merge e else seen).key = seen.key := by
    intro j seen
    split_ifs <;> exact ⟨rfl, rfl⟩
  refine ⟨fun k j => (h.index k j).trans ⟨?_, ?_⟩, fun e' he' hnak => ?_, fun l' hl' k hk => ?_⟩
  · rintro ⟨seen, hseen, hnak, hkey⟩
    exact ⟨_, (hmodify j _).mpr ⟨seen, hseen, rfl⟩, (hsame j seen).1.trans hnak, (hsame j seen).2.trans hkey⟩
  · rintro ⟨e', he', hnak, hkey⟩
    obtain ⟨seen, hseen, rfl⟩ := (hmodify j e').mp he'
    exact ⟨seen, hseen, (hsame j seen).1.symm.trans hnak, (hsame j seen).2.symm.trans hkey⟩
  · obtain ⟨j, hj⟩ := List.mem_iff_getElem?.mp he'
    obtain ⟨seen, hseen, rfl⟩ := (hmodify j e').mp hj
    have hkind : seen.kind = .nak := (hsame j seen).1.symm.trans hnak
    obtain ⟨hfirst, hnamed⟩ := h.tells seen (List.mem_of_getElem? hseen) hkind
    by_cases hij : i = j
    · rw [if_pos hij]
      have hkey : seen.key = e.key := by
        obtain ⟨e₀, he₀, -, hkey₀⟩ := (h.index e.key i).mp hget
        rw [hij, hseen] at he₀
        rw [Option.some.inj he₀]
        exact hkey₀
      have hmerged : (seen.merge e).key = seen.key := rfl
      have hfilter : (lines ++ [l]).filter (Line.isNakOf seen.key) = lines.filter (Line.isNakOf seen.key) ++ [l] :=
        filter_snoc_of_pos (hkey ▸ hl)
      refine ⟨?_, ?_⟩
      · obtain ⟨l₀, rest, hlines, hts⟩ := hfirst
        rw [hmerged, hfilter, hlines]
        exact ⟨l₀, rest ++ [l], rfl, hts⟩
      · rw [hmerged, hfilter, firstNamed_snoc, ← hnamed, ← hip]
        show (if e.ip ≠ "" ∧ seen.ip = "" then e.ip else seen.ip) = _
        by_cases hseen : seen.ip = ""
        · by_cases hempty : e.ip = ""
          · rw [if_neg fun hboth => hboth.1 hempty, if_pos hseen, hseen, hempty]
          · rw [if_pos ⟨hempty, hseen⟩, if_pos hseen]
        · rw [if_neg fun hboth => hseen hboth.2, if_neg hseen]
    · rw [if_neg hij]
      have hother : l.isNakOf seen.key = false := by
        refine Bool.eq_false_iff.mpr fun hl' => hij ?_
        have hplace := (h.index seen.key j).mpr ⟨seen, hseen, hkind, rfl⟩
        rw [key_eq_of_isNakOf hl' hl, hget] at hplace
        exact Option.some.inj hplace
      exact ⟨by rwa [filter_snoc_of_not hother], by rwa [filter_snoc_of_not hother]⟩
  · rcases List.mem_append.mp hl' with hmem | hmem
    · exact h.all l' hmem k hk
    · rw [List.mem_singleton.mp hmem] at hk
      rw [key_eq_of_isNakOf hk hl]
      exact ⟨i, hget⟩

theorem told_step (h : Told lines s) (hl : l.Readable) : Told (lines ++ [l]) (s.step l) := by
  obtain ⟨hevents, hnaks⟩ := @record_kept l s
  have hu : Told lines ((s.recordLease l).recordSubnet l) := h.of_eq hevents hnaks
  unfold Walk.step
  dsimp only
  generalize (s.recordLease l).recordSubnet l = u at hu
  by_cases hnak : l.kind = some .nak
  · obtain ⟨hts, mac, tid, hmac, htid, hmacne, htidne⟩ := hl hnak
    obtain ⟨ts, hts⟩ := Option.isSome_iff_exists.mp hts
    obtain ⟨e, he, hkind, hemac, hetid, hets, heip⟩ := eventOf_nak (s := u) hnak hts hmac hmacne
    rw [htid, Option.getD_some] at hetid
    have hkey : e.key = (mac, tid) := Prod.ext hemac hetid
    have hof : l.isNakOf e.key = true := by
      rw [hkey]
      exact isNakOf_iff.mpr ⟨hnak, hmac, htid⟩
    rw [he]
    dsimp only
    unfold Walk.add
    rw [if_pos ⟨hkind, hetid ▸ htidne⟩]
    cases hget : u.naks.get e.key with
    | none => exact hu.new hof hkind (hets ▸ hts) heip hget
    | some i => exact hu.merged hof heip hget
  · have hnot : ∀ k, l.isNakOf k = false := fun k => Bool.eq_false_iff.mpr fun hk => hnak (isNakOf_iff.mp hk).1
    cases he : u.eventOf l with
    | none => exact hu.skip hnot
    | some e =>
      have hkind : e.kind ≠ .nak := fun heq => hnak (heq ▸ kind_eventOf he)
      dsimp only
      unfold Walk.add
      rw [if_neg fun hboth => hkind hboth.1]
      exact (hu.skip hnot).other hkind

end Step

/-! ## The whole log -/

theorem told_start : Told [] Walk.start := by
  refine ⟨fun k i => ⟨nofun, ?_⟩, nofun, nofun⟩
  rintro ⟨e, he, -, -⟩
  cases he

theorem told_walk (lines : List Line) (hreadable : ∀ l ∈ lines, l.Readable) :
    Told lines (lines.foldl Walk.step .start) := by
  induction lines using List.reverseRecOn with
  | nil => exact told_start
  | append_singleton lines l ih =>
    rw [List.foldl_append]
    refine told_step (ih fun l' hl' => hreadable l' (List.mem_append_left _ hl')) (hreadable l ?_)
    exact List.mem_append_right _ List.mem_cons_self

/-- A `DHCPNAK` that Kea sends: the line that says so, and the line that says why where the log has it. -/
structure Nak where
  mac : String
  tid : String
  reason : Option Line
  send : Line
  mac_ne : mac ≠ ""
  tid_ne : tid ≠ ""
  sends : send.sendsNak = true
  why : ∀ r ∈ reason, r.kind = some .nak ∧ r.id ≠ packetSend
  labelled : ∀ l ∈ reason.toList ++ [send], l.mac = some mac ∧ l.tid = some tid ∧ l.ts.isSome

namespace Nak

/-- The lines of a NAK. -/
def lines (n : Nak) : List Line := n.reason.toList ++ [n.send]

/-- The client and the transaction. -/
def key (n : Nak) : Key := (n.mac, n.tid)

theorem isNakOf {n : Nak} {l : Line} (h : l ∈ n.lines) : l.isNakOf n.key = true := by
  obtain ⟨hmac, htid, -⟩ := n.labelled l h
  refine isNakOf_iff.mpr ⟨?_, hmac, htid⟩
  rcases List.mem_append.mp h with hmem | hmem
  · exact (n.why l (Option.mem_toList.mp hmem)).1
  · rw [List.mem_singleton.mp hmem, Line.kind, if_pos n.sends]

end Nak

/-- The NAKs of a log: every line of a NAK is of one of them, and those of a client in a transaction stand one after the
other, each with its own lines. -/
structure Logged (lines : List Line) (naks : List Nak) : Prop where
  own : ∀ l ∈ lines, l.kind = some .nak → ∃ n ∈ naks, l ∈ n.lines
  turns : ∀ k, lines.filter (Line.isNakOf k) = (naks.filter fun n => n.key = k).flatMap Nak.lines

/-- The event is of the NAK: of its client, with the address that one of its lines names, and with the time of one of
its lines. -/
structure Carries (n : Nak) (e : Event) : Prop where
  client : e.mac = n.mac
  address : ∀ l ∈ n.lines, l.clientIp ≠ "" → e.ip = l.clientIp
  time : ∃ l ∈ n.lines, l.ts = some e.ts

/-- There is one event for each NAK. -/
def OnePerNak (lines : List Line) (naks : List Nak) : Prop :=
  ∃ events, events.Perm ((problemEvents lines).filter fun e => e.kind = .nak) ∧ List.Forall₂ Carries naks events

section Logs

variable {lines : List Line} {naks : List Nak} {e : Event}

theorem Logged.readable (h : Logged lines naks) : ∀ l ∈ lines, l.Readable := by
  intro l hl hnak
  obtain ⟨n, -, hmem⟩ := h.own l hl hnak
  obtain ⟨hmac, htid, hts⟩ := n.labelled l hmem
  exact ⟨hts, n.mac, n.tid, hmac, htid, n.mac_ne, n.tid_ne⟩

theorem mem_naks : e ∈ (problemEvents lines).filter (fun e => e.kind = .nak) ↔
    e ∈ (lines.foldl Walk.step .start).events ∧ e.kind = .nak := by
  rw [List.mem_filter, decide_eq_true_iff]
  exact and_congr_left fun _ => (List.perm_insertionSort _ _).mem_iff

/-- Two events of NAKs have two keys. -/
theorem nodup_keys (h : Told lines (lines.foldl Walk.step .start)) :
    (((problemEvents lines).filter fun e => e.kind = .nak).map Event.key).Nodup := by
  have hperm : ((problemEvents lines).filter fun e => e.kind = .nak).Perm
      ((lines.foldl Walk.step .start).events.filter fun e => e.kind = .nak) :=
    (List.perm_insertionSort _ _).filter _
  rw [(hperm.map Event.key).nodup_iff]
  generalize lines.foldl Walk.step .start = s at h
  rw [List.Nodup, List.pairwise_map, List.pairwise_filter, List.pairwise_iff_getElem]
  intro i j hi hj hij hnak hnak' hkey
  have hat := (h.index _ i).mpr ⟨_, List.getElem?_eq_getElem hi, of_decide_eq_true hnak, rfl⟩
  have hat' := (h.index _ j).mpr ⟨_, List.getElem?_eq_getElem hj, of_decide_eq_true hnak', rfl⟩
  rw [hkey, hat'] at hat
  exact absurd (Option.some.inj hat) (by omega)

/-- The lines of the only NAK of its key. -/
theorem filter_key (h : (naks.map Nak.key).Nodup) {n : Nak} (hn : n ∈ naks) :
    (naks.filter fun m => m.key = n.key) = [n] := by
  induction naks with
  | nil => cases hn
  | cons m naks ih =>
    obtain ⟨hm, hnaks⟩ := List.nodup_cons.mp h
    rcases List.mem_cons.mp hn with rfl | hn
    · rw [List.filter_cons, if_pos (decide_eq_true rfl)]
      refine congrArg _ (List.filter_eq_nil_iff.mpr fun m' hm' hkey => hm ?_)
      rw [← of_decide_eq_true hkey]
      exact List.mem_map_of_mem hm'
    · rw [List.filter_cons_of_neg, ih hnaks hn]
      intro hkey
      refine hm ?_
      rw [of_decide_eq_true hkey]
      exact List.mem_map_of_mem hn

/-- What one line of a NAK names is the first that its lines name. -/
theorem firstNamed_lines (n : Nak) {l : Line} (hl : l ∈ n.lines) (hip : l.clientIp ≠ "") :
    firstNamed n.lines = l.clientIp := by
  have hsend : n.send.clientIp = "" := by
    have hid : n.send.id = packetSend := (of_decide_eq_true n.sends).1
    rw [Line.clientIp, if_pos hid]
  cases hreason : n.reason with
  | none =>
    unfold Nak.lines at hl
    rw [hreason, Option.toList_none, List.nil_append, List.mem_singleton] at hl
    rw [hl] at hip
    exact absurd hsend hip
  | some r =>
    unfold Nak.lines at hl ⊢
    rw [hreason, Option.toList_some] at hl ⊢
    have hlr : l = r := by
      rcases List.mem_cons.mp hl with heq | hmem
      · exact heq
      · rw [List.mem_singleton.mp hmem] at hip
        exact absurd hsend hip
    rw [hlr] at hip ⊢
    unfold firstNamed
    rw [List.singleton_append, List.map_cons, List.find?_cons, decide_eq_true hip]
    rfl

/-- The event of the only NAK of its key is its event. -/
theorem carries_of_tells (h : Logged lines naks) (hkeys : (naks.map Nak.key).Nodup) {n : Nak} (hn : n ∈ naks)
    (hkey : e.key = n.key) (he : Tells lines e) : Carries n e := by
  have hlines : lines.filter (Line.isNakOf e.key) = n.lines := by
    rw [hkey, h.turns, filter_key hkeys hn, List.flatMap_singleton]
  obtain ⟨⟨l, rest, hfirst, hts⟩, hnamed⟩ := he
  rw [hlines] at hfirst hnamed
  refine ⟨congrArg Prod.fst hkey, fun l' hl' hip => hnamed.trans (firstNamed_lines n hl' hip), l, ?_, hts⟩
  rw [hfirst]
  exact List.mem_cons_self

/-- The events that stand for the elements of a list, by a relation that each has one of. -/
theorem exists_forall₂ {α β : Type} {R : α → β → Prop} {xs : List α} (h : ∀ x ∈ xs, ∃ y, R x y) :
    ∃ ys, List.Forall₂ R xs ys := by
  induction xs with
  | nil => exact ⟨[], .nil⟩
  | cons x xs ih =>
    obtain ⟨y, hy⟩ := h x List.mem_cons_self
    obtain ⟨ys, hys⟩ := ih fun x' hx' => h x' (List.mem_cons_of_mem _ hx')
    exact ⟨y :: ys, .cons hy hys⟩

theorem exists_of_forall₂ {α β : Type} {R : α → β → Prop} {xs : List α} {ys : List β} (h : List.Forall₂ R xs ys)
    {y : β} (hy : y ∈ ys) : ∃ x ∈ xs, R x y := by
  induction h with
  | nil => cases hy
  | cons hxy _ ih =>
    rcases List.mem_cons.mp hy with rfl | hy
    · exact ⟨_, List.mem_cons_self, hxy⟩
    · obtain ⟨x, hx, hr⟩ := ih hy
      exact ⟨x, List.mem_cons_of_mem _ hx, hr⟩

theorem map_eq_of_forall₂ {α β γ : Type} {f : α → γ} {g : β → γ} {xs : List α} {ys : List β}
    (h : List.Forall₂ (fun x y => g y = f x) xs ys) : ys.map g = xs.map f := by
  induction h with
  | nil => rfl
  | cons hxy _ ih => rw [List.map_cons, List.map_cons, hxy, ih]

/-- The key of an event is that of a NAK of the log. -/
theorem key_mem (h : Logged lines naks) (he : Tells lines e) : e.key ∈ naks.map Nak.key := by
  obtain ⟨⟨l, rest, hfirst, -⟩, -⟩ := he
  have hl : l ∈ lines.filter (Line.isNakOf e.key) := by
    rw [hfirst]
    exact List.mem_cons_self
  rw [h.turns] at hl
  obtain ⟨n, hn, -⟩ := List.mem_flatMap.mp hl
  obtain ⟨hmem, hkey⟩ := List.mem_filter.mp hn
  rw [← of_decide_eq_true hkey]
  exact List.mem_map_of_mem hmem

/-- A NAK of the log has an event of its key. -/
theorem exists_event (h : Logged lines naks) (ht : Told lines (lines.foldl Walk.step .start)) {n : Nak}
    (hn : n ∈ naks) : ∃ e ∈ (problemEvents lines).filter (fun e => e.kind = .nak), e.key = n.key := by
  have hsend : n.send ∈ n.lines := List.mem_append_right _ List.mem_cons_self
  have hline : n.send ∈ lines := by
    have hfilter : n.send ∈ lines.filter (Line.isNakOf n.key) := by
      rw [h.turns]
      exact List.mem_flatMap.mpr ⟨n, List.mem_filter.mpr ⟨hn, decide_eq_true rfl⟩, hsend⟩
    exact (List.mem_filter.mp hfilter).1
  obtain ⟨i, hi⟩ := ht.all n.send hline n.key (Nak.isNakOf hsend)
  obtain ⟨e, he, hkind, hkey⟩ := (ht.index n.key i).mp hi
  exact ⟨e, mem_naks.mpr ⟨List.mem_of_getElem? he, hkind⟩, hkey⟩

end Logs

/-- Each NAK of a log is one event, of its client, with the address that its lines name and with a time of theirs, if
and only if no two of them are of one client and transaction id. -/
theorem onePerNak_iff (lines : List Line) (naks : List Nak) (h : Logged lines naks) :
    OnePerNak lines naks ↔ (naks.map Nak.key).Nodup := by
  have ht : Told lines (lines.foldl Walk.step .start) := told_walk lines h.readable
  have hnodup := nodup_keys ht
  have htells : ∀ e ∈ (problemEvents lines).filter (fun e => e.kind = .nak), Tells lines e := fun e he =>
    ht.tells e (mem_naks.mp he).1 (mem_naks.mp he).2
  constructor
  · rintro ⟨events, hperm, hall⟩
    -- there are as many events as NAKs, and their keys are distinct and among those of the NAKs
    have hsub : ((problemEvents lines).filter fun e => e.kind = .nak).map Event.key ⊆ (naks.map Nak.key).dedup := by
      intro k hk
      obtain ⟨e, he, rfl⟩ := List.mem_map.mp hk
      exact List.mem_dedup.mpr (key_mem h (htells e he))
    have hle : ((problemEvents lines).filter fun e => e.kind = .nak).length ≤ (naks.map Nak.key).dedup.length := by
      have hsubperm := (List.subperm_of_subset hnodup hsub).length_le
      rwa [List.length_map] at hsubperm
    have hlength : (naks.map Nak.key).length ≤ (naks.map Nak.key).dedup.length := by
      rw [List.length_map, hall.length_eq, hperm.length_eq]
      exact hle
    have hdedup := (List.dedup_sublist (naks.map Nak.key)).eq_of_length_le hlength
    exact List.dedup_eq_self.mp hdedup
  · intro hkeys
    obtain ⟨events, hall⟩ := @exists_forall₂ Nak Event
      (fun n e => n ∈ naks ∧ e ∈ (problemEvents lines).filter (fun e => e.kind = .nak) ∧ e.key = n.key) naks
      fun n hn => by
        obtain ⟨e, he, hkey⟩ := exists_event h ht hn
        exact ⟨e, hn, he, hkey⟩
    have hmap : events.map Event.key = naks.map Nak.key := map_eq_of_forall₂ (hall.imp fun _ _ hn => hn.2.2)
    have hmem : ∀ e ∈ events, e ∈ (problemEvents lines).filter fun e => e.kind = .nak := fun e he => by
      obtain ⟨n, -, hn⟩ := exists_of_forall₂ hall he
      exact hn.2.1
    refine ⟨events, (List.perm_ext_iff_of_nodup ?_ (hnodup.of_map _)).mpr fun e => ⟨hmem e, fun he => ?_⟩,
      hall.imp fun n e hn => carries_of_tells h hkeys hn.1 hn.2.2 (htells e hn.2.1)⟩
    · refine List.Nodup.of_map Event.key ?_
      rw [hmap]
      exact hkeys
    · have hkey := key_mem h (htells e he)
      rw [← hmap] at hkey
      obtain ⟨e', he', heq⟩ := List.mem_map.mp hkey
      rw [← List.inj_on_of_nodup_map hnodup (hmem e' he') he heq]
      exact he'

/-- The line of a `DHCPNAK` that is sent to a client in a transaction. -/
def sendLine (ts : ℤ) : Line where
  ts := some ts
  level := "INFO"
  id := packetSend
  rest := "[hwtype=1 aa:bb:cc:dd:ee:ff], cid=[], tid=0x1a2b: packet DHCPNAK (type 6)"
  mac := some "aa:bb:cc:dd:ee:ff"
  tid := some "0x1a2b"
  requested := none
  address := none
  lease := none
  subnet := none
  ips := []
  summary := "DHCPNAK sent"

/-- The line that says why. -/
def reasonLine (ts : ℤ) : Line :=
  { sendLine ts with
    level := "DEBUG"
    id := "DHCP4_PACKET_NAK_0002"
    rest := "[hwtype=1 aa:bb:cc:dd:ee:ff], cid=[], tid=0x1a2b: invalid address 10.0.0.5 requested by INIT-REBOOT"
    address := some "10.0.0.5"
    ips := ["10.0.0.5"]
    summary := "NAK: INIT-REBOOT address 10.0.0.5 is not valid here" }

/-- A NAK with both lines. -/
def bootNak (ts : ℤ) : Nak where
  mac := "aa:bb:cc:dd:ee:ff"
  tid := "0x1a2b"
  reason := some (reasonLine ts)
  send := sendLine ts
  mac_ne := by decide
  tid_ne := by decide
  sends := by
    have hrest : "DHCPNAK".toList <:+: (sendLine 0).rest.toList := by decide
    exact decide_eq_true ⟨rfl, hrest⟩
  why := by
    intro r hr
    obtain rfl : r = reasonLine ts := (Option.some.inj (Option.mem_def.mp hr)).symm
    have hkind : (reasonLine 0).kind = some .nak := by decide
    have hid : (reasonLine 0).id ≠ packetSend := by decide
    exact ⟨hkind, hid⟩
  labelled := by
    intro l hl
    rcases List.mem_cons.mp hl with rfl | hl
    · exact ⟨rfl, rfl, rfl⟩
    · rw [List.mem_singleton.mp hl]
      exact ⟨rfl, rfl, rfl⟩

/-- The log of one NAK. -/
theorem logged_single (n : Nak) : Logged n.lines [n] := by
  refine ⟨fun l hl _ => ⟨n, List.mem_cons_self, hl⟩, fun k => ?_⟩
  by_cases hk : n.key = k
  · have hof : ∀ l ∈ n.lines, l.isNakOf k = true := fun l hl => by
      rw [← hk]
      exact Nak.isNakOf hl
    rw [List.filter_eq_self.mpr hof, List.filter_cons, if_pos (decide_eq_true hk), List.filter_nil,
      List.flatMap_singleton]
  · have hnot : ∀ l ∈ n.lines, ¬ l.isNakOf k = true := fun l hl hof => hk (key_eq_of_isNakOf (Nak.isNakOf hl) hof)
    rw [List.filter_eq_nil_iff.mpr hnot, List.filter_cons, if_neg fun h => hk (of_decide_eq_true h), List.filter_nil,
      List.flatMap_nil]

/-- One NAK, with both lines. -/
theorem onePerNak_boot : OnePerNak [reasonLine 0, sendLine 0] [bootNak 0] := by
  have hone : ([bootNak 0].map Nak.key).Nodup := List.nodup_singleton _
  exact (onePerNak_iff _ _ (logged_single (bootNak 0))).mpr hone

/-- A second NAK, of a client that reuses its transaction id an hour later, is not an event of its own. -/
theorem not_onePerNak_hour :
    ¬ OnePerNak [reasonLine 0, sendLine 0, reasonLine 3600000000, sendLine 3600000000]
      [bootNak 0, bootNak 3600000000] := by
  rintro ⟨events, hperm, hall⟩
  have hone : ((problemEvents [reasonLine 0, sendLine 0, reasonLine 3600000000, sendLine 3600000000]).filter
      fun e => e.kind = .nak).length = 1 := by decide +kernel
  have htwo : [bootNak 0, bootNak 3600000000].length = 1 := by
    rw [hall.length_eq, hperm.length_eq, hone]
  exact absurd htwo (by decide)

end JenKea.KeaLog
