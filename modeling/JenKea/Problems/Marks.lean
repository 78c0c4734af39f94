import JenKea.Problems.Sweep

/-!
# The marks of an alert

What the alert rules read of a row that is not resolved: when its alert was delivered, attempted and
qualified. Each statement of a sweep is told by what it does to the marks of one kind, client and subnet
(`Has`): an upsert keeps them and adds a blank one, a decision qualifies them or drops what waits, and the
marks of others stay.
-/

namespace JenKea.Problems

/-- What the alert rules read of a row. -/
structure Marks where
  alertedAt : Option ℤ := none
  attemptedAt : Option ℤ := none
  qualifiedAt : Option ℤ := none
  deriving DecidableEq

def Row.marks (r : Row) : Marks := ⟨r.alertedAt, r.attemptedAt, r.qualifiedAt⟩

/-- A row that is not resolved, of this kind, client and subnet, has the marks. -/
def Has (t : Table) (key : Key) (m : Marks) : Prop := ∃ x ∈ openRows t key, x.2.marks = m

instance (t : Table) (key : Key) (m : Marks) : Decidable (Has t key m) :=
  inferInstanceAs (Decidable (∃ x ∈ openRows t key, x.2.marks = m))

variable {t : Table} {key key' : Key} {m : Marks} {now : ℤ}

theorem has_iff : Has t key m ↔
    ∃ k r, t.get k = some r ∧ k.key = key ∧ r.resolvedAt = none ∧ r.marks = m := by
  unfold Has openRows
  constructor
  · intro ⟨x, hx, hm⟩
    obtain ⟨hmem, hopen⟩ := List.mem_filter.mp hx
    obtain ⟨hkey, hres⟩ := of_decide_eq_true hopen
    exact ⟨x.1, x.2, Map.mem_entries.mp hmem, hkey, hres, hm⟩
  · intro ⟨k, r, hget, hkey, hres, hm⟩
    exact ⟨(k, r), List.mem_filter.mpr ⟨Map.mem_entries.mpr hget, decide_eq_true ⟨hkey, hres⟩⟩, hm⟩

/-! ## Upserts -/

theorem marks_upsertRow {baseline : Bool} {old : Option Row} {g : Group} :
    (upsertRow baseline old g).resolvedAt = none ∧
      (upsertRow baseline old g).marks = match old with
        | some r => if r.resolvedAt = none then r.marks else {}
        | none => {} := by
  unfold upsertRow
  cases old with
  | none => exact ⟨rfl, rfl⟩
  | some r =>
    dsimp only
    by_cases hopen : r.resolvedAt = none
    · rw [if_pos hopen, if_pos hopen]
      exact ⟨hopen, rfl⟩
    · rw [if_neg hopen, if_neg hopen]
      exact ⟨rfl, rfl⟩

/-- An upsert keeps the marks that are there. -/
theorem has_upsert {baseline : Bool} {x : RowKey × Group} (h : Has t key m) :
    Has (upsert baseline t x) key m := by
  obtain ⟨k, r, hget, hkey, hopen, hm⟩ := has_iff.mp h
  refine has_iff.mpr ?_
  unfold upsert
  by_cases hk : k = x.1
  · subst hk
    obtain ⟨hres, hmarks⟩ := @marks_upsertRow baseline (t.get x.1) x.2
    rw [hget] at hmarks
    dsimp only at hmarks
    rw [if_pos hopen] at hmarks
    refine ⟨x.1, upsertRow baseline (t.get x.1) x.2, ?_, hkey, hres, ?_⟩
    · rw [Map.get_put, if_pos rfl]
    · rw [hget, hmarks, hm]
  · refine ⟨k, r, ?_, hkey, hopen, hm⟩
    rw [Map.get_put, if_neg hk, hget]

/-- An upsert adds no marks but blank ones. -/
theorem has_of_upsert {baseline : Bool} {x : RowKey × Group} (h : Has (upsert baseline t x) key m) :
    Has t key m ∨ m = {} := by
  obtain ⟨k, r, hget, hkey, hopen, hm⟩ := has_iff.mp h
  unfold upsert at hget
  rw [Map.get_put] at hget
  split_ifs at hget with hk
  · obtain rfl := Option.some.inj hget
    obtain ⟨-, hmarks⟩ := @marks_upsertRow baseline (t.get x.1) x.2
    rw [hmarks] at hm
    cases hold : t.get x.1 with
    | none =>
      rw [hold] at hm
      exact .inr hm.symm
    | some r' =>
      rw [hold] at hm
      dsimp only at hm
      split_ifs at hm with hopen'
      · exact .inl (has_iff.mpr ⟨x.1, r', hold, hk ▸ hkey, hopen', hm⟩)
      · exact .inr hm.symm
  · exact .inl (has_iff.mpr ⟨k, r, hget, hkey, hopen, hm⟩)

theorem has_upserts {baseline : Bool} {groups : List (RowKey × Group)} (h : Has t key m) :
    Has (groups.foldl (upsert baseline) t) key m := by
  induction groups generalizing t with
  | nil => exact h
  | cons x groups ih => exact ih (has_upsert h)

theorem has_of_upserts {baseline : Bool} {groups : List (RowKey × Group)}
    (h : Has (groups.foldl (upsert baseline) t) key m) : Has t key m ∨ m = {} := by
  induction groups generalizing t with
  | nil => exact .inl h
  | cons x groups ih =>
    rcases ih h with h | h
    · exact has_of_upsert h
    · exact .inr h

/-! ## Updates -/

/-- An update of the rows of one key: its marks are changed, and no others. -/
theorem has_updateOpen {f : Row → Row} {g : Marks → Marks} (hopen : ∀ r, (f r).resolvedAt = r.resolvedAt)
    (hmarks : ∀ r, (f r).marks = g r.marks) :
    Has (updateOpen t key' f) key m ↔ ∃ m', Has t key m' ∧ m = if key = key' then g m' else m' := by
  have hrow : ∀ k r, k.key = key → r.resolvedAt = none →
      (if IsOpen key' (k, r) then f r else r).marks = if key = key' then g r.marks else r.marks := by
    intro k r hkey hres
    by_cases hsame : key = key'
    · have hisOpen : IsOpen key' (k, r) := ⟨hkey.trans hsame, hres⟩
      rw [if_pos hisOpen, if_pos hsame, hmarks]
    · have hnot : ¬ IsOpen key' (k, r) := fun hisOpen => hsame (hkey.symm.trans (And.left hisOpen))
      rw [if_neg hnot, if_neg hsame]
  have hresolved : ∀ k r, (if IsOpen key' (k, r) then f r else r).resolvedAt = r.resolvedAt := by
    intro k r
    split_ifs
    · exact hopen r
    · rfl
  unfold updateOpen
  constructor
  · intro h
    obtain ⟨k, r, hget, hkey, hres, hm⟩ := has_iff.mp h
    rw [Map.get_mapEntries] at hget
    obtain ⟨r', hget', rfl⟩ := Option.map_eq_some_iff.mp hget
    rw [hresolved] at hres
    refine ⟨r'.marks, has_iff.mpr ⟨k, r', hget', hkey, hres, rfl⟩, ?_⟩
    rw [← hm, hrow k r' hkey hres]
  · intro ⟨m', hm', heq⟩
    obtain ⟨k, r, hget, hkey, hres, rfl⟩ := has_iff.mp hm'
    refine has_iff.mpr ⟨k, if IsOpen key' (k, r) then f r else r, ?_, hkey, (hresolved k r).trans hres, ?_⟩
    · rw [Map.get_mapEntries, hget, Option.map_some]
    · rw [heq, hrow k r hkey hres]

/-- The marks after an attempt. -/
def Marks.attempt (now : ℤ) (m : Marks) : Marks := { m with attemptedAt := some now }

/-- The marks after a delivery. -/
def Marks.deliver (now : ℤ) (m : Marks) : Marks := { m with alertedAt := some now, qualifiedAt := none }

/-- Some of the alerts that are due are marked, with what an update does to the marks. -/
theorem has_foldl_updateOpen {f : Row → Row} {g : Marks → Marks} {p : Due → Bool}
    (hopen : ∀ r, (f r).resolvedAt = r.resolvedAt) (hmarks : ∀ r, (f r).marks = g r.marks)
    (htwice : ∀ m, g (g m) = g m) (dues : List Due) :
    Has (dues.foldl (fun t due => if p due then updateOpen t due.key f else t) t) key m ↔
      ∃ m', Has t key m' ∧ m = if dues.any fun d => d.key = key ∧ p d then g m' else m' := by
  induction dues generalizing t with
  | nil => simp
  | cons d dues ih =>
    have hd : ∀ m', Has (if p d then updateOpen t d.key f else t) key m' ↔
        ∃ m'', Has t key m'' ∧ m' = if d.key = key ∧ p d then g m'' else m'' := by
      intro m'
      by_cases hp : p d = true
      · rw [if_pos hp, has_updateOpen hopen hmarks]
        simp only [hp, and_true, eq_comm]
      · rw [if_neg hp]
        simp [hp]
    rw [List.foldl_cons, ih, List.any_cons]
    constructor
    · intro ⟨m', hm', heq⟩
      obtain ⟨m'', hm'', rfl⟩ := (hd m').mp hm'
      refine ⟨m'', hm'', ?_⟩
      by_cases hfirst : d.key = key ∧ p d = true
      · rw [if_pos hfirst, htwice, ite_self] at heq
        rw [heq, if_pos (by simp [hfirst])]
      · rw [if_neg hfirst] at heq
        rw [heq, decide_eq_false hfirst, Bool.false_or]
    · intro ⟨m'', hm'', heq⟩
      refine ⟨_, (hd _).mpr ⟨m'', hm'', rfl⟩, ?_⟩
      by_cases hfirst : d.key = key ∧ p d = true
      · rw [if_pos hfirst, htwice, ite_self, heq, if_pos (by simp [hfirst])]
      · rw [if_neg hfirst, heq, decide_eq_false hfirst, Bool.false_or]

/-- The alerts that are due are marked attempted. -/
theorem has_markAttempted (dues : List Due) : Has (markAttempted now t dues) key m ↔
    ∃ m', Has t key m' ∧ m = if dues.any fun d => d.key = key then m'.attempt now else m' := by
  have h := @has_foldl_updateOpen t key m (fun r => { r with attemptedAt := some now }) (Marks.attempt now)
    (fun _ => true) (fun _ => rfl) (fun _ => rfl) (fun _ => rfl) dues
  unfold markAttempted
  simpa only [if_true, and_true] using h

/-- The alerts that are delivered are recorded. -/
theorem has_send {i : Input} (hrecords : ∀ key, i.records key = true) (dues : List Due) :
    Has (send i t dues) key m ↔
      ∃ m', Has t key m' ∧
        m = if dues.any fun d => d.key = key ∧ i.sends d.key = true then m'.deliver i.now else m' := by
  have h := @has_foldl_updateOpen t key m
    (fun r => { r with alertedAt := some i.now, qualifiedAt := none, qualifiedCount := none })
    (Marks.deliver i.now) (fun d => i.sends d.key) (fun _ => rfl) (fun _ => rfl) (fun _ => rfl) dues
  unfold send recordDelivered
  simpa only [hrecords, and_true] using h

/-- What is resolved leaves. -/
theorem has_of_resolveRows (h : Has (resolveRows now t) key m) : Has t key m := by
  obtain ⟨k, r, hget, hkey, hres, hm⟩ := has_iff.mp h
  unfold resolveRows at hget
  rw [Map.get_mapEntries] at hget
  obtain ⟨r', hget', hr⟩ := Option.map_eq_some_iff.mp hget
  split_ifs at hr with hold
  · rw [← hr] at hres
    exact absurd hres nofun
  · rw [← hr] at hres hm
    exact has_iff.mpr ⟨k, r', hget', hkey, hres, hm⟩

/-! ## Decisions -/

/-- There is a latest qualification when some row is qualified, and it is the latest. -/
theorem latestQualified_spec (rows : List (RowKey × Row)) :
    match latestQualified rows with
    | none => ∀ x ∈ rows, x.2.qualifiedAt = none
    | some b => (∃ x ∈ rows, x.2.qualifiedAt = some b.1) ∧
        ∀ x ∈ rows, ∀ q, x.2.qualifiedAt = some q → q ≤ b.1 := by
  induction rows using List.reverseRec with
  | nil =>
    intro x hx
    exact absurd hx List.not_mem_nil
  | append_singleton rows x ih =>
    have hstep : latestQualified (rows ++ [x]) = laterQualified (latestQualified rows) x := by
      unfold latestQualified
      rw [List.foldl_append]
      rfl
    have hlast : x ∈ rows ++ [x] := List.mem_append_right _ (List.mem_singleton.mpr rfl)
    rw [hstep]
    unfold laterQualified
    cases hx : x.2.qualifiedAt with
    | none =>
      cases hbest : latestQualified rows with
      | none =>
        rw [hbest] at ih
        intro y hy
        rcases List.mem_append.mp hy with hy | hy
        · exact ih y hy
        · rw [List.mem_singleton.mp hy, hx]
      | some b =>
        rw [hbest] at ih
        obtain ⟨⟨y, hy, hq⟩, hall⟩ := ih
        refine ⟨⟨y, List.mem_append_left _ hy, hq⟩, fun z hz q hzq => ?_⟩
        rcases List.mem_append.mp hz with hz | hz
        · exact hall z hz q hzq
        · rw [List.mem_singleton.mp hz, hx] at hzq
          exact absurd hzq nofun
    | some q₀ =>
      cases hbest : latestQualified rows with
      | none =>
        rw [hbest] at ih
        refine ⟨⟨x, hlast, hx⟩, fun z hz q hzq => ?_⟩
        rcases List.mem_append.mp hz with hz | hz
        · exact absurd ((ih z hz).symm.trans hzq) nofun
        · rw [List.mem_singleton.mp hz, hx] at hzq
          exact le_of_eq (Option.some.inj hzq).symm
      | some b =>
        rw [hbest] at ih
        obtain ⟨⟨y, hy, hq⟩, hall⟩ := ih
        have hcases : ∀ z ∈ rows ++ [x], ∀ q, z.2.qualifiedAt = some q → q ≤ b.1 ∨ q = q₀ := by
          intro z hz q hzq
          rcases List.mem_append.mp hz with hz | hz
          · exact .inl (hall z hz q hzq)
          · rw [List.mem_singleton.mp hz, hx] at hzq
            exact .inr (Option.some.inj hzq).symm
        dsimp only
        by_cases hlt : b.1 < q₀
        · rw [if_pos hlt]
          refine ⟨⟨x, hlast, hx⟩, fun z hz q hzq => ?_⟩
          rcases hcases z hz q hzq with h | h
          · exact h.trans hlt.le
          · exact h.le
        · rw [if_neg hlt]
          refine ⟨⟨y, List.mem_append_left _ hy, hq⟩, fun z hz q hzq => ?_⟩
          rcases hcases z hz q hzq with h | h
          · exact h
          · exact h.le.trans (not_lt.mp hlt)

/-- An alert is not considered: there is no row, or it was delivered less than a day ago. -/
def Blocked (now : ℤ) (H : Marks → Prop) : Prop :=
  (∀ m, ¬ H m) ∨ ∃ m, H m ∧ within now ALERT_EVERY m.alertedAt = true

/-- An alert was attempted a short while ago, by a row that delivered none. -/
def Tried (now : ℤ) (H : Marks → Prop) : Prop :=
  ∃ m, H m ∧ m.alertedAt = none ∧ within now ALERT_RETRY_EVERY m.attemptedAt = true

/-- Every qualification is a day old. -/
def Stale (now : ℤ) (H : Marks → Prop) : Prop :=
  ∀ m q, H m → m.qualifiedAt = some q → QUALIFICATION_KEEP ≤ now - q

/-- The marks after a qualification, or after it is dropped. -/
def Marks.qualify (q : Option ℤ) (m : Marks) : Marks := { m with qualifiedAt := q }

/-- What a decision does to the marks of its kind, client and subnet, and whether its alert is due. -/
inductive Decided (now : ℤ) (H : Marks → Prop) : (Marks → Marks) → Bool → Prop where
  | blocked (h : Blocked now H) : Decided now H id false
  | waiting {due : Bool} (h : ¬ Blocked now H)
      (hq : ∃ m q, H m ∧ m.qualifiedAt = some q ∧ now - q < QUALIFICATION_KEEP)
      (hdue : due = true ↔ ¬ Tried now H) : Decided now H id due
  | nothing (h : ¬ Blocked now H) (hq : Stale now H) : Decided now H (Marks.qualify none) false
  | qualified {due : Bool} (h : ¬ Blocked now H) (hq : Stale now H) (hdue : due = true ↔ ¬ Tried now H) :
      Decided now H (Marks.qualify (some now)) due

theorem mem_newestFirst {rows : List (RowKey × Row)} {x : RowKey × Row} :
    x ∈ newestFirst rows ↔ x ∈ rows :=
  (List.perm_insertionSort _ _).mem_iff

theorem any_openRows {p : Marks → Bool} :
    (newestFirst (openRows t key)).any (fun x => p x.2.marks) = true ↔ ∃ m, Has t key m ∧ p m = true := by
  rw [List.any_eq_true]
  constructor
  · intro ⟨x, hx, hp⟩
    exact ⟨x.2.marks, ⟨x, mem_newestFirst.mp hx, rfl⟩, hp⟩
  · intro ⟨m, ⟨x, hx, hm⟩, hp⟩
    exact ⟨x, mem_newestFirst.mpr hx, by rw [hm]; exact hp⟩

theorem newestFirst_eq_nil : newestFirst (openRows t key) = [] ↔ ∀ m, ¬ Has t key m := by
  constructor
  · intro hnil m ⟨x, hx, _⟩
    have hmem := mem_newestFirst.mpr hx
    rw [hnil] at hmem
    exact absurd hmem List.not_mem_nil
  · intro hnone
    refine List.eq_nil_iff_forall_not_mem.mpr fun x hx => ?_
    exact hnone _ ⟨x, mem_newestFirst.mp hx, rfl⟩

theorem blocked_iff :
    (newestFirst (openRows t key) = [] ∨
      (newestFirst (openRows t key)).any (fun x => within now ALERT_EVERY x.2.alertedAt) = true) ↔
      Blocked now (Has t key) :=
  or_congr newestFirst_eq_nil (@any_openRows t key fun m => within now ALERT_EVERY m.alertedAt)

theorem tried_iff : triedLately now (newestFirst (openRows t key)) = true ↔ Tried now (Has t key) := by
  have h := @any_openRows t key fun m => m.alertedAt = none ∧ within now ALERT_RETRY_EVERY m.attemptedAt
  simp only [decide_eq_true_eq] at h
  exact h

/-- The latest qualification, in terms of the marks. -/
theorem latest_spec {rows : List (RowKey × Row)} (hrows : ∀ x, x ∈ rows ↔ x ∈ openRows t key) :
    match latestQualified rows with
    | none => ∀ m, Has t key m → m.qualifiedAt = none
    | some b => (∃ m, Has t key m ∧ m.qualifiedAt = some b.1) ∧
        ∀ m q, Has t key m → m.qualifiedAt = some q → q ≤ b.1 := by
  have h := latestQualified_spec rows
  cases hlatest : latestQualified rows with
  | none =>
    rw [hlatest] at h
    intro m ⟨x, hx, hm⟩
    rw [← hm]
    exact h x ((hrows x).mpr hx)
  | some b =>
    rw [hlatest] at h
    obtain ⟨⟨x, hx, hq⟩, hall⟩ := h
    refine ⟨⟨x.2.marks, ⟨x, (hrows x).mp hx, rfl⟩, hq⟩, fun m q ⟨y, hy, hm⟩ hmq => ?_⟩
    rw [← hm] at hmq
    exact hall y ((hrows y).mpr hy) q hmq

/-- What drops a qualification changes the marks of its own kind, client and subnet, or nothing. -/
theorem dropQualification_cases (now : ℤ) (t : Table) (key : Key) :
    (dropQualification now t key = t ∧ ((∀ m, Has t key m → m.qualifiedAt = none) ∨
      ∃ m q, Has t key m ∧ m.qualifiedAt = some q ∧ now - q < QUALIFICATION_KEEP)) ∨
    Stale now (Has t key) ∧
      ∀ key' m, Has (dropQualification now t key) key' m ↔
        ∃ m', Has t key' m' ∧ m = if key' = key then m'.qualify none else m' := by
  have hlatest := @latest_spec t key (openRows t key) fun _ => Iff.rfl
  unfold dropQualification
  cases hbest : latestQualified (openRows t key) with
  | none =>
    rw [hbest] at hlatest
    exact .inl ⟨rfl, .inl hlatest⟩
  | some b =>
    rw [hbest] at hlatest
    obtain ⟨⟨m, hm, hq⟩, hall⟩ := hlatest
    dsimp only
    split_ifs with hold
    · refine .inr ⟨fun m' q hm' hmq => ?_, fun key' m => has_updateOpen (fun _ => rfl) fun _ => rfl⟩
      have hle := hall m' q hm' hmq
      omega
    · exact .inl ⟨rfl, .inr ⟨m, b.1, hm, hq, by omega⟩⟩

/-- What a decision does. -/
theorem decideKey_spec (now : ℤ) (firstSweep : Bool) (threshold : ℕ) (recent : Map Key ℕ) (t : Table)
    (key : Key) :
    ∃ g due, Decided now (Has t key) g due ∧
      (∀ key' m, Has (decideKey now firstSweep threshold recent t key).1 key' m ↔
        ∃ m', Has t key' m' ∧ m = if key' = key then g m' else m') ∧
      (∀ d, (decideKey now firstSweep threshold recent t key).2 = some d → d.key = key) ∧
      ((decideKey now firstSweep threshold recent t key).2.isSome = due) := by
  have hsame : ∀ key' m, Has t key' m ↔ ∃ m', Has t key' m' ∧ m = if key' = key then id m' else m' := by
    intro key' m
    simp
  unfold decideKey
  dsimp only
  by_cases hblocked : Blocked now (Has t key)
  · rw [if_pos (blocked_iff.mpr hblocked)]
    exact ⟨id, false, .blocked hblocked, hsame, nofun, rfl⟩
  · rw [if_neg (mt blocked_iff.mp hblocked)]
    have hlatest := @latest_spec (dropQualification now t key) key
      (newestFirst (openRows (dropQualification now t key) key)) fun x => mem_newestFirst
    have hdue : ∀ d : Due, ((if triedLately now (newestFirst (openRows t key)) then none else some d).isSome = true ↔
        ¬ Tried now (Has t key)) := by
      intro d
      rw [← tried_iff]
      split_ifs with htried
      · simp [htried]
      · simp [htried]
    have hkey : ∀ d e : Due, d.key = key →
        (if triedLately now (newestFirst (openRows t key)) then none else some d) = some e → e.key = key := by
      intro d e hd he
      split_ifs at he
      obtain rfl := Option.some.inj he
      exact hd
    cases hbest : latestQualified (newestFirst (openRows (dropQualification now t key) key)) with
    | some b =>
      rw [hbest] at hlatest
      obtain ⟨⟨m, hm, hq⟩, -⟩ := hlatest
      rcases dropQualification_cases now t key with ⟨heq, hnone | hfresh⟩ | ⟨-, hdropped⟩
      · rw [heq] at hm
        exact absurd ((hnone m hm).symm.trans hq) nofun
      · rw [heq]
        exact ⟨id, _, .waiting hblocked hfresh (hdue _), hsame, fun d => hkey _ d rfl, rfl⟩
      · obtain ⟨m', -, heq⟩ := (hdropped key m).mp hm
        rw [if_pos rfl] at heq
        rw [heq] at hq
        exact absurd hq nofun
    | none =>
      rw [hbest] at hlatest
      -- What is left has no qualification, because there was none or it was a day old.
      have hstale : Stale now (Has t key) ∧
          ∀ key' m, Has (dropQualification now t key) key' m ↔
            ∃ m', Has t key' m' ∧ m = if key' = key then m'.qualify none else m' := by
        rcases dropQualification_cases now t key with ⟨heq, hnone | ⟨m, q, hm, hq, -⟩⟩ | hdropped
        · refine ⟨fun m q hm hq => absurd ((hnone m hm).symm.trans hq) nofun, fun key' m => ?_⟩
          rw [heq]
          have hblank : ∀ m', Has t key' m' → (if key' = key then m'.qualify none else m') = m' := by
            intro m' hm'
            split_ifs with hk
            · rw [hk] at hm'
              unfold Marks.qualify
              rw [← hnone m' hm']
            · rfl
          constructor
          · intro hm
            exact ⟨m, hm, (hblank m hm).symm⟩
          · intro ⟨m', hm', hmeq⟩
            rw [hmeq, hblank m' hm']
            exact hm'
        · rw [heq] at hlatest
          exact absurd ((hlatest m hm).symm.trans hq) nofun
        · exact hdropped
      obtain ⟨hstale, hdropped⟩ := hstale
      dsimp only
      by_cases hfew : firstSweep = true ∨ (recent.get key).getD 0 < threshold
      · rw [if_pos hfew]
        exact ⟨_, false, .nothing hblocked hstale, hdropped, nofun, rfl⟩
      · rw [if_neg hfew]
        refine ⟨_, _, .qualified hblocked hstale (hdue _), fun key' m => ?_, fun d => hkey _ d rfl, rfl⟩
        have hupdate := @has_updateOpen (dropQualification now t key) key' key m
          (fun r => { r with qualifiedAt := some now, qualifiedCount := some ((recent.get key).getD 0) })
          (Marks.qualify (some now)) (fun _ => rfl) fun _ => rfl
        dsimp only
        rw [hupdate]
        constructor
        · intro ⟨m', hm', hmeq⟩
          obtain ⟨m'', hm'', heq⟩ := (hdropped key' m').mp hm'
          refine ⟨m'', hm'', ?_⟩
          rw [hmeq, heq]
          split_ifs <;> rfl
        · intro ⟨m'', hm'', heq⟩
          refine ⟨_, (hdropped key' _).mpr ⟨m'', hm'', rfl⟩, ?_⟩
          rw [heq]
          split_ifs <;> rfl

/-- What the decisions about several do to one of them, or to another. -/
theorem decideKeys_spec (now : ℤ) (firstSweep : Bool) (threshold : ℕ) (recent : Map Key ℕ) {t : Table}
    {keys : List Key} (hnodup : keys.Nodup) (key : Key) :
    ∃ g due, (∀ m, Has (decideKeys now firstSweep threshold recent t keys).1 key m ↔
        ∃ m', Has t key m' ∧ m = g m') ∧
      (((decideKeys now firstSweep threshold recent t keys).2.any fun d => d.key = key) = due) ∧
      (key ∈ keys ∧ Decided now (Has t key) g due ∨ key ∉ keys ∧ g = id ∧ due = false) := by
  induction keys generalizing t with
  | nil => exact ⟨id, false, by simp [decideKeys], rfl, .inr ⟨List.not_mem_nil, rfl, rfl⟩⟩
  | cons k keys ih =>
    obtain ⟨hk, hnodup⟩ := List.nodup_cons.mp hnodup
    obtain ⟨g₁, due₁, hdecided, hhas₁, hkey₁, hdue₁⟩ := decideKey_spec now firstSweep threshold recent t k
    unfold decideKeys
    dsimp only
    generalize hr : decideKey now firstSweep threshold recent t k = r at hhas₁ hkey₁ hdue₁
    obtain ⟨g, due, hhas, hdue, hcases⟩ := @ih r.1 hnodup
    have hfirst : (r.2.toList.any fun d => d.key = key) = (decide (k = key) && due₁) := by
      rw [← hdue₁]
      cases hd : r.2 with
      | none => simp
      | some d =>
        have hdk := hkey₁ d hd
        simp [hdk]
    by_cases heq : k = key
    · subst heq
      have hrest : g = id ∧ due = false := by
        rcases hcases with ⟨hmem, -⟩ | ⟨-, hboth⟩
        · exact absurd hmem hk
        · exact hboth
      obtain ⟨rfl, rfl⟩ := hrest
      refine ⟨g₁, due₁, fun m => ?_, ?_, .inl ⟨List.mem_cons_self, hdecided⟩⟩
      · rw [hhas]
        simp only [id, hhas₁, if_true]
        constructor
        · intro ⟨m', ⟨m'', hm'', hm'⟩, hm⟩
          exact ⟨m'', hm'', hm.trans hm'⟩
        · intro ⟨m'', hm'', hm⟩
          exact ⟨m, ⟨m'', hm'', hm⟩, rfl⟩
      · rw [List.any_append, hfirst, hdue]
        simp
    · have hunchanged : Has r.1 key = Has t key := by
        funext m
        refine propext ?_
        rw [hhas₁]
        simp [Ne.symm heq]
      rw [hunchanged] at hcases
      refine ⟨g, due, fun m => ?_, ?_, ?_⟩
      · rw [hhas, hunchanged]
      · rw [List.any_append, hfirst, hdue]
        simp [heq]
      · rcases hcases with ⟨hmem, h⟩ | ⟨hmem, h⟩
        · exact .inl ⟨List.mem_cons_of_mem _ hmem, h⟩
        · refine .inr ⟨fun h' => ?_, h⟩
          rcases List.mem_cons.mp h' with h' | h'
          · exact heq h'.symm
          · exact hmem h'

end JenKea.Problems
