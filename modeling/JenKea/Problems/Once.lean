import JenKea.Lib.Trace
import JenKea.Problems.Sweep

/-!
# Each problem counts once

The watermark is the time of a line that an earlier sweep read, and no problem that was counted is newer
(`Covered`). A line that is read again has the same time, so it is not counted again; neither is a NAK, unless
the tail begins between its two lines, for then the second of them is an event of its own, newer than the
first. Where no tail does, each problem is counted by one sweep, and every new one is counted
(`once_run`). A NAK that the end of a tail and the beginning of the next cut in two is counted twice
(`not_once`).
-/

namespace JenKea.Problems

/-! ## What a sweep counts -/

/-- The problems that a sweep adds to the rows. -/
def counted (s : State) (i : Input) : List Shifted :=
  (i.events.filter (isNew s.watermark)).filter fun e => e.rowKey i.subnetOf ∈ (recorded s i).keys

/-- The problems that a sweep of a run adds, if its transaction is there. -/
def Pass.counted (p : Pass) : List Shifted :=
  if p.input.commits then Problems.counted p.state p.input else []

section Groups

variable {subnetOf : String → Option ℕ → Option ℕ} {events : List Shifted} {k : RowKey}

/-- A group holds the number of its events. -/
theorem get_foldl_addToGroup {groups : Map RowKey Group} {n : ℕ}
    (h : (groups.get k).elim 0 (fun g => g.new) = n) :
    ((events.foldl (addToGroup subnetOf) groups).get k).elim 0 (fun g => g.new) =
      n + (events.filter fun e => e.rowKey subnetOf = k).length := by
  induction events generalizing groups n with
  | nil => rw [List.filter_nil, List.length_nil, Nat.add_zero]; exact h
  | cons e events ih =>
    rw [List.foldl_cons]
    by_cases hk : e.rowKey subnetOf = k
    · have hadd : ((addToGroup subnetOf groups e).get k).elim 0 (fun g => g.new) = n + 1 := by
        unfold addToGroup
        dsimp only
        rw [Map.get_put, if_pos hk.symm, hk, ← h]
        cases groups.get k <;> rfl
      rw [ih hadd, List.filter_cons, if_pos (decide_eq_true hk), List.length_cons]
      omega
    · have hadd : ((addToGroup subnetOf groups e).get k).elim 0 (fun g => g.new) = n := by
        unfold addToGroup
        dsimp only
        rw [Map.get_put, if_neg fun heq => hk heq.symm]
        exact h
      have hnot : ¬ decide (e.rowKey subnetOf = k) = true := by rwa [decide_eq_true_iff]
      rw [ih hadd, List.filter_cons, if_neg hnot]

/-- What is kept under the cap is as it was collected. -/
theorem get_capNewKeys {t : Table} {groups : Map RowKey Group} {g : Group}
    (h : (capNewKeys t groups).get k = some g) : groups.get k = some g := by
  unfold capNewKeys at h
  dsimp only at h
  split_ifs at h
  · exact h
  · rw [Map.get_foldl_erase] at h
    split_ifs at h
    exact h

end Groups

/-- What a group adds to its row is the number of the problems that are counted for it. -/
theorem new_recorded {s : State} {i : Input} {k : RowKey} {g : Group} (h : (recorded s i).get k = some g) :
    g.new = ((counted s i).filter fun e => e.rowKey i.subnetOf = k).length := by
  have hcollected := get_capNewKeys h
  have hempty : ((Map.empty : Map RowKey Group).get k).elim 0 (fun g => g.new) = 0 := rfl
  have hcount := @get_foldl_addToGroup i.subnetOf (i.events.filter (isNew s.watermark)) k .empty 0 hempty
  unfold collectGroups at hcollected
  rw [hcollected, Nat.zero_add] at hcount
  have hkey : k ∈ (recorded s i).keys := by
    rw [Map.mem_keys, h]
    rfl
  have hsame : (counted s i).filter (fun e => e.rowKey i.subnetOf = k) =
      (i.events.filter (isNew s.watermark)).filter fun e => e.rowKey i.subnetOf = k := by
    unfold counted
    rw [List.filter_filter]
    refine List.filter_congr fun e _ => ?_
    by_cases hk : e.rowKey i.subnetOf = k
    · simp [hk, hkey]
    · simp [hk]
  rw [hsame]
  exact hcount

/-! ## The log and its tails -/

/-- The lines of the log from one place to another. -/
def window (log : ℕ → Line) (start stop : ℕ) : List (ℕ × Line) :=
  (List.range' start (stop - start)).map fun n => (n, log n)

theorem mem_window {log : ℕ → Line} {start stop : ℕ} {x : ℕ × Line} :
    x ∈ window log start stop ↔ start ≤ x.1 ∧ x.1 < stop ∧ x.2 = log x.1 := by
  unfold window
  rw [List.mem_map]
  constructor
  · intro ⟨n, hn, heq⟩
    obtain ⟨hlow, hhigh⟩ := List.mem_range'_1.mp hn
    rw [← heq]
    exact ⟨hlow, by dsimp only; omega, rfl⟩
  · intro ⟨hlow, hhigh, heq⟩
    exact ⟨x.1, List.mem_range'_1.mpr ⟨hlow, by omega⟩, Prod.ext rfl heq.symm⟩

/-- The times in a log never go back. -/
def Forward (log : ℕ → Line) : Prop :=
  ∀ m n, m ≤ n → ∀ a b, (log m).ts = some a → (log n).ts = some b → a ≤ b

/-- A sweep of a growing and rotating log, from the place where its tail begins to where the log ends. -/
structure Reading where
  start : ℕ
  stop : ℕ
  input : Input

def Reading.toInput (log : ℕ → Line) (r : Reading) : Input :=
  { r.input with tail := window log r.start r.stop }

/-- The last sweep whose transaction is there. -/
def lastCommitted (h : List Pass) : Option Pass := (h.filter fun p => p.input.commits).getLast?

/-! ## The property and its condition -/

/-- A sweep after earlier ones counts nothing again, moves the watermark nowhere back, and counts every
problem of its tail that is younger than a day, newer than every line of the last tail and not dropped. -/
structure Once (h : List Pass) (p : Pass) : Prop where
  once : ∀ q ∈ h, ∀ e ∈ q.counted, ∀ e' ∈ p.counted, e.problem ≠ e'.problem
  forward : ∀ w, p.state.watermark = some w →
    ∃ w', (sweep p.state p.input).watermark = some w' ∧ w ≤ w'
  all : p.input.commits = true → ∀ last, lastCommitted h = some last → ∀ e ∈ p.input.events,
    (∀ x ∈ last.input.tail, ∀ t, x.2.ts = some t → t < e.ts) →
      (e.rowKey p.input.subnetOf ∈ (collectGroups p.input.subnetOf p.input.events p.state.watermark).keys →
        e.rowKey p.input.subnetOf ∈ (recorded p.state p.input).keys) → e ∈ p.counted

/-- The tail of a sweep does not begin between the lines of a NAK that an earlier sweep read, and where the
last tail shows no time, no problem has the very time of the watermark. -/
structure Uncut (h : List Pass) (p : Pass) : Prop where
  nak : p.input.commits = true → ∀ e ∈ p.input.events, e.kind = .nak → e.tid ≠ "" →
    isNew p.state.watermark e = true → ∀ q ∈ h, q.input.commits = true → ∀ x ∈ q.input.tail,
      NakLine e.mac e.tid x.2 → e.line ≤ x.1
  instant : p.input.commits = true → ∀ last, lastCommitted h = some last →
    (∀ x ∈ last.input.tail, x.2.ts = none) → ∀ e ∈ p.input.events, p.state.watermark ≠ some e.ts

/-! ## The watermark -/

/-- What every sweep finds: its tails are of the log, the watermark is not before what was counted, and it is
the time of a line before the end of the last tail. -/
structure Covered (log : ℕ → Line) (h : List Pass) (start stop : ℕ) (w : Option ℤ) : Prop where
  tails : ∀ q ∈ h, ∀ x ∈ q.input.tail, x.2 = log x.1
  counted : ∀ q ∈ h, ∀ e ∈ q.counted, ∃ v, w = some v ∧ e.ts ≤ v
  line : ∀ v, w = some v → ∃ last a b n, lastCommitted h = some last ∧ last.input.tail = window log a b ∧
    a ≤ start ∧ b ≤ stop ∧ n < b ∧ (log n).ts = some v
  last : ∀ last, lastCommitted h = some last → ∃ a b, last.input.tail = window log a b ∧ a ≤ start ∧ b ≤ stop

variable {log : ℕ → Line} {h : List Pass} {start stop : ℕ} {s : State} {i : Input}

theorem watermark_sweep (s : State) (i : Input) :
    (sweep s i).watermark = if i.commits then nextWatermark s i else s.watermark := by
  unfold sweep scan
  dsimp only
  split_ifs <;> rfl

theorem max?_spec {l : List ℤ} {v : ℤ} (h : l.max? = some v) : v ∈ l ∧ ∀ x ∈ l, x ≤ v :=
  List.max?_eq_some_iff.mp h

theorem max?_of_mem {l : List ℤ} {x : ℤ} (h : x ∈ l) : ∃ v, l.max? = some v := by
  cases hmax : l.max? with
  | none => exact absurd (List.max?_eq_none_iff.mp hmax ▸ h) List.not_mem_nil
  | some v => exact ⟨v, rfl⟩

/-- The event is among the problems of the tail. -/
theorem mem_problemEvents {e : Shifted} (h : e ∈ i.events) : e.toEvent ∈ problemEvents i.tail := by
  obtain ⟨hshifted, -⟩ := List.mem_filter.mp h
  obtain ⟨e', he', rfl⟩ := List.mem_map.mp hshifted
  exact he'

/-- A transaction moves the watermark to the newest of what it saw, or leaves it. -/
theorem nextWatermark_spec (s : State) (i : Input) :
    (∀ w, s.watermark = some w → ∃ v, nextWatermark s i = some v ∧ w ≤ v) ∧
    (∀ e ∈ i.events, ∃ v, nextWatermark s i = some v ∧ e.ts ≤ v) ∧
    ∀ v, nextWatermark s i = some v → s.watermark = some v ∨ ∃ x ∈ i.tail, x.2.ts = some v := by
  have hevent : ∀ e ∈ problemEvents i.tail, ∃ x ∈ i.tail, x.2.ts = some e.ts := fun e he => by
    obtain ⟨l, hmem, hts⟩ := (placed_of_mem he).line
    exact ⟨_, hmem, hts⟩
  unfold nextWatermark
  dsimp only
  cases hw : s.watermark with
  | none =>
    rw [if_pos rfl]
    refine ⟨nofun, fun e he => ?_, fun v hv => .inr ?_⟩
    · have hmem : e.ts ∈ (problemEvents i.tail).map (fun e => e.ts) ++ (newestTs i.tail).toList ++
          (collectWatermark i.events none).toList :=
        List.mem_append_left _ (List.mem_append_left _ (List.mem_map.mpr ⟨_, mem_problemEvents he, rfl⟩))
      obtain ⟨v, hv⟩ := max?_of_mem hmem
      exact ⟨v, hv, (max?_spec hv).2 _ hmem⟩
    · rcases List.mem_append.mp (max?_spec hv).1 with hmem | hmem
      · rcases List.mem_append.mp hmem with hmem | hmem
        · obtain ⟨e, he, rfl⟩ := List.mem_map.mp hmem
          exact hevent e he
        · have hnewest : (i.tail.filterMap fun x => x.2.ts).max? = some v := Option.mem_toList.mp hmem
          obtain ⟨x, hx, hts⟩ := List.mem_filterMap.mp (max?_spec hnewest).1
          exact ⟨x, hx, hts⟩
      · have hcollect : collectWatermark i.events none = some v := Option.mem_toList.mp hmem
        unfold collectWatermark at hcollect
        cases hmax : (i.events.map fun e => e.ts).max? with
        | none =>
          rw [hmax] at hcollect
          exact absurd hcollect nofun
        | some newest =>
          rw [hmax] at hcollect
          obtain rfl := Option.some.inj hcollect
          obtain ⟨e, he, rfl⟩ := List.mem_map.mp (max?_spec hmax).1
          exact hevent e.toEvent (mem_problemEvents he)
  | some w =>
    rw [if_neg (Option.some_ne_none w)]
    unfold collectWatermark
    cases hmax : (i.events.map fun e => e.ts).max? with
    | none =>
      have hnone : i.events = [] := List.map_eq_nil_iff.mp (List.max?_eq_none_iff.mp hmax)
      refine ⟨fun w' hw' => ⟨w, rfl, le_of_eq (Option.some.inj hw').symm⟩, fun e he => ?_, fun v hv => .inl hv⟩
      rw [hnone] at he
      exact absurd he List.not_mem_nil
    | some newest =>
      have hnew : newest ≤ (if newest > w then newest else w) ∧ w ≤ (if newest > w then newest else w) := by
        split_ifs with hlt <;> omega
      refine ⟨fun w' hw' => ⟨_, rfl, ?_⟩, fun e he => ⟨_, rfl, ?_⟩, fun v hv => ?_⟩
      · rw [← Option.some.inj hw']
        exact hnew.2
      · exact ((max?_spec hmax).2 _ (List.mem_map.mpr ⟨e, he, rfl⟩)).trans hnew.1
      · have hv' := Option.some.inj hv
        split_ifs at hv' with hlt
        · obtain ⟨e, he, hts⟩ := List.mem_map.mp (max?_spec hmax).1
          obtain ⟨x, hx, hxts⟩ := hevent e.toEvent (mem_problemEvents he)
          exact .inr ⟨x, hx, by rw [hxts, ← hv', ← hts]⟩
        · exact .inl (congrArg some hv')

theorem lastCommitted_snoc (h : List Pass) (p : Pass) :
    lastCommitted (h ++ [p]) = if p.input.commits then some p else lastCommitted h := by
  unfold lastCommitted
  rw [List.filter_append]
  rw [List.filter_cons, List.filter_nil]
  split_ifs with hcommits
  · rw [List.getLast?_append]
    rfl
  · rw [List.append_nil]

/-! ## One sweep -/

/-- The line of an event in a tail of the log. -/
theorem line_of_event {tail : List (ℕ × Line)} (hlog : ∀ x ∈ tail, x.2 = log x.1) {e : Event}
    (he : e ∈ problemEvents tail) :
    (e.line, log e.line) ∈ tail ∧ (log e.line).ts = some e.ts ∧
      (e.kind = .nak → e.tid ≠ "" → NakLine e.mac e.tid (log e.line)) := by
  have hplaced := placed_of_mem he
  obtain ⟨l, hmem, hts⟩ := hplaced.line
  obtain rfl : l = log e.line := hlog _ hmem
  refine ⟨hmem, hts, fun hkind htid => ?_⟩
  obtain ⟨l', before, after, hsplit, hnak, -⟩ := hplaced.nak hkind htid
  have hmem' : (e.line, l') ∈ tail := by
    rw [hsplit]
    exact List.mem_append_right _ List.mem_cons_self
  obtain rfl : l' = log e.line := hlog _ hmem'
  exact hnak

theorem mem_counted {p : Pass} {e : Shifted} (h : e ∈ p.counted) :
    p.input.commits = true ∧ e ∈ p.input.events ∧ isNew p.state.watermark e = true := by
  unfold Pass.counted at h
  split_ifs at h with hcommits
  · obtain ⟨hmem, -⟩ := List.mem_filter.mp h
    obtain ⟨hevents, hnew⟩ := List.mem_filter.mp hmem
    exact ⟨hcommits, hevents, hnew⟩
  · exact absurd h List.not_mem_nil

/-- A sweep whose tail cuts no NAK counts each problem once, and all that are new. -/
theorem Covered.once (hc : Covered log h start stop s.watermark) (hforward : Forward log)
    {start' stop' : ℕ} (hstart : start ≤ start') (htail : i.tail = window log start' stop')
    (hcut : Uncut h ⟨s, i⟩) : Once h ⟨s, i⟩ := by
  have hlog : ∀ x ∈ i.tail, x.2 = log x.1 := fun x hx => by
    rw [htail] at hx
    exact (mem_window.mp hx).2.2
  refine ⟨fun q hq e he e' he' heq => ?_, fun w hw => ?_, fun hcommits last hlast e he hnewer hkept => ?_⟩
  · -- A problem that was counted is not newer than the watermark.
    obtain ⟨v, hv, hle⟩ := hc.counted q hq e he
    obtain ⟨hqcommits, heEvents, -⟩ := mem_counted he
    obtain ⟨hcommits, heEvents', hnew⟩ := mem_counted he'
    have hlater : v < e'.ts := by
      dsimp only at hnew
      rw [hv] at hnew
      exact of_decide_eq_true hnew
    obtain ⟨hmem, hts, hnak⟩ := line_of_event (hc.tails q hq) (mem_problemEvents heEvents)
    obtain ⟨-, hts', -⟩ := line_of_event hlog (mem_problemEvents heEvents')
    have hline : e'.line ≤ e.line := by
      unfold Event.problem at heq
      split_ifs at heq with hisNak hisNak' hisNak'
      · obtain ⟨hmac, htid⟩ := Problem.nak.inj heq
        have hthis := hnak hisNak.1 hisNak.2
        rw [hmac, htid] at hthis
        exact hcut.nak hcommits e' heEvents' hisNak'.1 hisNak'.2 hnew q hq hqcommits _ hmem hthis
      · exact le_of_eq (Problem.line.inj heq).symm
    have hback := hforward _ _ hline _ _ hts' hts
    omega
  · rw [watermark_sweep]
    dsimp only at hw ⊢
    split_ifs
    · exact (nextWatermark_spec s i).1 w hw
    · exact ⟨w, hw, le_refl w⟩
  · -- A problem that is newer than the last tail is newer than the watermark.
    have hnew : isNew s.watermark e = true := by
      cases hw : s.watermark with
      | none => rfl
      | some w =>
        refine decide_eq_true ?_
        obtain ⟨last', a, b, n, hlast', htail', ha, -, hn, hts⟩ := hc.line w hw
        obtain rfl : last = last' := Option.some.inj (hlast.symm.trans hlast')
        obtain ⟨hmem, htsE, -⟩ := line_of_event hlog (mem_problemEvents he)
        rw [htail] at hmem
        have hafter : b ≤ e.line := by
          by_contra hlt
          have hlow : start' ≤ e.line := (mem_window.mp hmem).1
          have hin : (e.line, log e.line) ∈ last.input.tail := by
            rw [htail']
            exact mem_window.mpr ⟨by dsimp only; omega, by dsimp only; omega, rfl⟩
          exact absurd (hnewer _ hin _ htsE) (lt_irrefl _)
        by_cases hnone : ∀ x ∈ last.input.tail, x.2.ts = none
        · have hle : w ≤ e.ts := hforward n e.line (by omega) _ _ hts htsE
          have hne := hcut.instant hcommits last hlast hnone e he
          dsimp only at hne
          rw [hw] at hne
          exact lt_of_le_of_ne hle fun heq => hne (congrArg some heq)
        · obtain ⟨z, hz, hzts⟩ := not_forall₂.mp hnone
          obtain ⟨t, ht⟩ := Option.ne_none_iff_exists'.mp hzts
          have hzle := hnewer z hz t ht
          rw [htail'] at hz
          obtain ⟨hzlow, hzhigh, hzlog⟩ := mem_window.mp hz
          rw [hzlog] at ht
          rcases Nat.le_total n z.1 with hnz | hzn
          · exact lt_of_le_of_lt (hforward n z.1 hnz _ _ hts ht) hzle
          · have hin : (n, log n) ∈ last.input.tail := by
              rw [htail']
              exact mem_window.mpr ⟨by dsimp only; omega, hn, rfl⟩
            exact hnewer _ hin _ hts
    have hgroup : e.rowKey i.subnetOf ∈ (collectGroups i.subnetOf i.events s.watermark).keys := by
      rw [Map.mem_keys]
      have hempty : ((Map.empty : Map RowKey Group).get (e.rowKey i.subnetOf)).elim 0 (fun g => g.new) = 0 := rfl
      have hcount := @get_foldl_addToGroup i.subnetOf (i.events.filter (isNew s.watermark))
        (e.rowKey i.subnetOf) .empty 0 hempty
      have hpos : 0 < ((i.events.filter (isNew s.watermark)).filter
          fun e' => e'.rowKey i.subnetOf = e.rowKey i.subnetOf).length :=
        List.length_pos_of_mem (List.mem_filter.mpr ⟨List.mem_filter.mpr ⟨he, hnew⟩, decide_eq_true rfl⟩)
      unfold collectGroups
      cases hget : ((i.events.filter (isNew s.watermark)).foldl (addToGroup i.subnetOf) .empty).get
          (e.rowKey i.subnetOf) with
      | none =>
        rw [hget, Option.elim_none] at hcount
        omega
      | some g => rfl
    unfold Pass.counted
    rw [if_pos hcommits]
    exact List.mem_filter.mpr ⟨List.mem_filter.mpr ⟨he, hnew⟩, decide_eq_true (hkept hgroup)⟩

/-- The watermark after a sweep covers what it counted. -/
theorem Covered.sweep (hc : Covered log h start stop s.watermark) {start' stop' : ℕ} (hstart : start ≤ start')
    (hstop : stop ≤ stop') (htail : i.tail = window log start' stop') :
    Covered log (h ++ [⟨s, i⟩]) start' stop' (sweep s i).watermark := by
  obtain ⟨hforward, hevents, hfrom⟩ := nextWatermark_spec s i
  rw [watermark_sweep]
  refine ⟨fun q hq x hx => ?_, fun q hq e he => ?_, fun v hv => ?_, fun last hlast => ?_⟩
  · rcases List.mem_append.mp hq with hq | hq
    · exact hc.tails q hq x hx
    · rw [List.mem_singleton.mp hq] at hx
      dsimp only at hx
      rw [htail] at hx
      exact (mem_window.mp hx).2.2
  · rcases List.mem_append.mp hq with hq | hq
    · obtain ⟨v, hv, hle⟩ := hc.counted q hq e he
      split_ifs
      · obtain ⟨v', hv', hle'⟩ := hforward v hv
        exact ⟨v', hv', hle.trans hle'⟩
      · exact ⟨v, hv, hle⟩
    · rw [List.mem_singleton.mp hq] at he
      obtain ⟨hcommits, hmem, -⟩ := mem_counted he
      dsimp only at hcommits hmem
      rw [if_pos hcommits]
      exact hevents e hmem
  · rw [lastCommitted_snoc]
    dsimp only
    split_ifs at hv ⊢ with hcommits
    · refine ⟨⟨s, i⟩, start', stop', ?_⟩
      rcases hfrom v hv with hold | ⟨x, hx, hts⟩
      · obtain ⟨-, -, b, n, -, -, -, hb, hn, hts⟩ := hc.line v hold
        exact ⟨n, rfl, htail, le_refl _, le_refl _, by omega, hts⟩
      · rw [htail] at hx
        obtain ⟨-, hhigh, heq⟩ := mem_window.mp hx
        rw [heq] at hts
        exact ⟨x.1, rfl, htail, le_refl _, le_refl _, hhigh, hts⟩
    · obtain ⟨last, a, b, n, hlast, htail', ha, hb, hn, hts⟩ := hc.line v hv
      exact ⟨last, a, b, n, hlast, htail', by omega, by omega, hn, hts⟩
  · rw [lastCommitted_snoc] at hlast
    split_ifs at hlast
    · obtain rfl := Option.some.inj hlast
      exact ⟨start', stop', htail, le_refl _, le_refl _⟩
    · obtain ⟨a, b, htail', ha, hb⟩ := hc.last last hlast
      exact ⟨a, b, htail', by omega, by omega⟩

/-! ## Runs -/

theorem covered_nil (log : ℕ → Line) : Covered log [] 0 0 none :=
  ⟨fun _ hq => absurd hq List.not_mem_nil, fun _ hq => absurd hq List.not_mem_nil, nofun, nofun⟩

/-- The sweeps of the readings of a log. -/
def sweeps (log : ℕ → Line) (readings : List Reading) : List Pass :=
  passes {} (readings.map (Reading.toInput log))

/-- A sweep is added to a run. -/
theorem sweeps_snoc (log : ℕ → Line) (readings : List Reading) (r : Reading) :
    sweeps log (readings ++ [r]) =
      sweeps log readings ++ [⟨run {} (readings.map (Reading.toInput log)), r.toInput log⟩] := by
  unfold sweeps
  rw [List.map_append, passes_append]
  rfl

/-- Every run of sweeps, whose tails begin and end in order, leaves a watermark that covers it. -/
theorem covered_run (hforward : Forward log) {readings : List Reading}
    (hstarts : readings.Pairwise fun r r' => r.start ≤ r'.start)
    (hstops : readings.Pairwise fun r r' => r.stop ≤ r'.stop)
    (huncut : Ordered Uncut (sweeps log readings)) :
    Ordered Once (sweeps log readings) ∧
      ∃ start stop, (∀ next, (∀ r ∈ readings, r.start ≤ next) → start ≤ next) ∧
        (∀ next, (∀ r ∈ readings, r.stop ≤ next) → stop ≤ next) ∧
        Covered log (sweeps log readings) start stop (run {} (readings.map (Reading.toInput log))).watermark := by
  induction readings using List.reverseRecOn with
  | nil => exact ⟨ordered_nil _, 0, 0, fun _ _ => Nat.zero_le _, fun _ _ => Nat.zero_le _, covered_nil log⟩
  | append_singleton readings r ih =>
    have hr : r ∈ readings ++ [r] := List.mem_append_right _ (List.mem_singleton.mpr rfl)
    obtain ⟨hstarts, -, hstart⟩ := List.pairwise_append.mp hstarts
    obtain ⟨hstops, -, hstop⟩ := List.pairwise_append.mp hstops
    rw [sweeps_snoc, ordered_snoc] at huncut
    obtain ⟨hordered, start, stop, hlow, hhigh, hcovered⟩ := ih hstarts hstops huncut.1
    have hstart' : start ≤ r.start := hlow _ fun r' hr' => hstart r' hr' r (List.mem_singleton.mpr rfl)
    have hstop' : stop ≤ r.stop := hhigh _ fun r' hr' => hstop r' hr' r (List.mem_singleton.mpr rfl)
    have hrun : run {} ((readings ++ [r]).map (Reading.toInput log)) =
        sweep (run {} (readings.map (Reading.toInput log))) (r.toInput log) := by
      unfold run
      rw [List.map_append, List.foldl_append]
      rfl
    rw [sweeps_snoc, hrun]
    refine ⟨ordered_snoc.mpr ⟨hordered, hcovered.once hforward hstart' rfl huncut.2⟩, r.start, r.stop,
      fun next hnext => hnext r hr, fun next hnext => hnext r hr, hcovered.sweep hstart' hstop' rfl⟩

/-- Over every run of sweeps of a log, none of which cuts a NAK in two or finds the time of the watermark
after a tail without times, each problem is counted by one sweep, the watermark never goes back, and what is
new is counted. -/
theorem once_run (hforward : Forward log) (readings : List Reading)
    (hstarts : readings.Pairwise fun r r' => r.start ≤ r'.start)
    (hstops : readings.Pairwise fun r r' => r.stop ≤ r'.stop)
    (huncut : Ordered Uncut (sweeps log readings)) : Ordered Once (sweeps log readings) :=
  (covered_run hforward hstarts hstops huncut).1

/-! ## A NAK that is read in one piece, and one that is cut in two -/

/-- A NAK whose reason and whose sending are logged a second apart. -/
def nakLog : ℕ → Line
  | 0 => { ts := some 60000000000, id := "DHCP4_PACKET_NAK_0003", label := some "aa:bb:cc:dd:ee:ff",
           tid := some "0x1", summary := "the client asked for an address of another network" }
  | 1 => { ts := some 60001000000, id := "DHCP4_PACKET_SEND", label := some "aa:bb:cc:dd:ee:ff",
           tid := some "0x1", hasNak := true }
  | _ => { ts := none, id := "DHCP4_RELEASE" }

theorem forward_nakLog : Forward nakLog := by
  intro m n hle a b ha hb
  match m, n with
  | 0, 0 => exact le_of_eq (Option.some.inj (ha.symm.trans hb))
  | 0, 1 =>
    have h0 : (60000000000 : ℤ) = a := Option.some.inj ha
    have h1 : (60001000000 : ℤ) = b := Option.some.inj hb
    omega
  | 1, 0 => omega
  | 1, 1 => exact le_of_eq (Option.some.inj (ha.symm.trans hb))
  | _ + 2, _ => exact absurd ha nofun
  | _, _ + 2 => exact absurd hb nofun

/-- Both lines are in the first tail, and the second of them in the next. -/
def wholeReadings : List Reading :=
  [⟨0, 2, { now := 60010000000, tail := [] }⟩, ⟨1, 2, { now := 60310000000, tail := [] }⟩]

/-- The first tail ends between the two lines, and the log is rotated there. -/
def cutReadings : List Reading :=
  [⟨0, 1, { now := 60000500000, tail := [] }⟩, ⟨1, 2, { now := 60300500000, tail := [] }⟩]

/-- A NAK that is read in one piece is counted once. -/
theorem once_whole : Ordered Once (sweeps nakLog wholeReadings) := by
  refine once_run forward_nakLog wholeReadings (by decide) (by decide) ?_
  have hsplit : sweeps nakLog wholeReadings =
      ([] ++ [⟨{}, (wholeReadings.getD 0 ⟨0, 0, { now := 0, tail := [] }⟩).toInput nakLog⟩]) ++
        [⟨run {} ((wholeReadings.take 1).map (Reading.toInput nakLog)),
          (wholeReadings.getD 1 ⟨0, 0, { now := 0, tail := [] }⟩).toInput nakLog⟩] := rfl
  rw [hsplit, ordered_snoc, ordered_snoc]
  refine ⟨⟨ordered_nil _, ?_⟩, ?_⟩
  · exact ⟨fun _ _ _ _ _ _ _ hq => absurd hq List.not_mem_nil, fun _ _ hlast => absurd hlast nofun⟩
  · constructor
    · -- The second line is as old as the watermark.
      have hold : ∀ e ∈ ((wholeReadings.getD 1 ⟨0, 0, { now := 0, tail := [] }⟩).toInput nakLog).events,
          isNew (run {} ((wholeReadings.take 1).map (Reading.toInput nakLog))).watermark e = false := by
        decide
      intro _ e he _ _ hnew
      exact absurd ((hold e he).symm.trans hnew) Bool.false_ne_true
    · intro _ last hlast hnone
      obtain rfl := Option.some.inj hlast
      have htimed : (0, nakLog 0) ∈ ((wholeReadings.getD 0 ⟨0, 0, { now := 0, tail := [] }⟩).toInput nakLog).tail :=
        List.mem_cons_self
      exact absurd (hnone _ htimed) nofun

/-- A NAK that is cut in two is counted twice. -/
theorem not_once : Forward nakLog ∧ (cutReadings.Pairwise fun r r' => r.start ≤ r'.start) ∧
    (cutReadings.Pairwise fun r r' => r.stop ≤ r'.stop) ∧
    (∃ before p after, sweeps nakLog cutReadings = before ++ p :: after ∧
      ∃ q ∈ before, ∃ e ∈ q.counted, ∃ e' ∈ p.counted, e.problem = e'.problem) ∧
    ((run {} (cutReadings.map (Reading.toInput nakLog))).table.get ⟨.nak, "aa:bb:cc:dd:ee:ff", "", none⟩).map
      Row.count = some 2 := by
  refine ⟨forward_nakLog, by decide, by decide, ⟨(sweeps nakLog cutReadings).take 1, _, [], rfl, ?_⟩,
    by decide⟩
  refine ⟨_, List.mem_cons_self, ?_⟩
  decide

end JenKea.Problems
