import JenKea.Compare.Alike

/-!
# Two walks over configurations that differ in secrets alone

The walk over what a file says, made of two pairs of a file and a daemon. Where the pairs agree on which of the
secrets are equal, both walks stop at one place, or nowhere: what is found there is below the key of a secret, or
differs in secrets alone.
-/

namespace JenKea.Compare

open Json Api

/-! ## The places of a file, and what the daemon runs there -/

/-- What the daemon runs at a place of the file. A key that it does not report is looked up in the one entry of
the list that took its place. -/
def counterpart : Path → Json → Option Json
  | [], v => some v
  | .key k :: p, .obj mine =>
    match lookup k mine with
    | some r => counterpart p r
    | none =>
      match lookup (renamedKey k) mine with
      | some (.arr [r]) => counterpart p r
      | _ => none
  | .item i :: p, .arr xs => xs[i]?.bind (counterpart p)
  | _ :: _, _ => none

/-- The text of a place, as the walk names it. -/
def textAt : String → Path → String
  | path, [] => path
  | path, .key k :: p => textAt (keyPath path k) p
  | path, .item i :: p => textAt s!"{path}[{i}]" p

/-- The last key on the way to a place. -/
def lastKey : Option String → Path → Option String
  | under, [] => under
  | _, .key k :: p => lastKey (some k) p
  | under, .item _ :: p => lastKey under p

/-- The scalar of the file is what the daemon runs, as the walk compares them. -/
def sameLeaf (path : String) (running candidate : Json) : Bool := (walkLeaf running candidate path).isNone

/-- The two files agree on which of their secrets the daemons run. -/
def SameEqualities (path : String) (r₁ f₁ r₂ f₂ : Json) : Prop :=
  ∀ p a₁ b₁ a₂ b₂, get p f₁ = some a₁ → counterpart p r₁ = some b₁ → get p f₂ = some a₂ →
    counterpart p r₂ = some b₂ → isContainer (some a₁) = false → secretPath (textAt path p) = true →
    sameLeaf (textAt path p) b₁ a₁ = sameLeaf (textAt path p) b₂ a₂

/-- The two files agree on which settings of an `interfaces-config` are ones that the daemon leaves out. -/
def SameSettings (under : Option String) (f₁ f₂ : Json) : Prop :=
  ∀ p k a₁ a₂, get (p ++ [.key k]) f₁ = some a₁ → get (p ++ [.key k]) f₂ = some a₂ →
    lastKey under p = some "interfaces-config" → omittedAtDefault k a₁ = omittedAtDefault k a₂

/-- Two pairs of a daemon and a file, below a place of the files, that differ in secrets alone. -/
structure Pairs (path : String) (under : Option String) (secret : Bool) (r₁ f₁ r₂ f₂ : Json) : Prop where
  secretly : secret = true → secretPath path = true
  running : alike secret r₁ r₂ = true
  files : alike secret f₁ f₂ = true
  wf₁ : WF f₁
  wf₂ : WF f₂
  equalities : SameEqualities path r₁ f₁ r₂ f₂
  settings : SameSettings under f₁ f₂

/-! ## Longer paths -/

section Paths

variable {path k : String} {i : ℕ}

theorem secretPath_dot (path k : String) : secretPath (path ++ "." ++ k) = (secretPath path || secretPath k) := by
  have hdot : path ++ "." ++ k = String.ofList (path.toList ++ '.' :: k.toList) := by
    rw [← String.toList_inj]
    simp
  rw [hdot, secretPath_append rfl, String.ofList_toList, String.ofList_toList]

theorem secretPath_empty : secretPath "" = false := by decide

theorem secretPath_keyPath (path k : String) : secretPath (keyPath path k) = (secretPath path || secretPath k) := by
  unfold keyPath
  split_ifs with hpath
  · rw [hpath, secretPath_empty, Bool.false_or]
  · exact secretPath_dot path k

theorem secretPath_item (h : secretPath path = true) : secretPath s!"{path}[{i}]" = true := by
  have hitem : s!"{path}[{i}]" = String.ofList (path.toList ++ '[' :: (toString i ++ "]").toList) := by
    show path ++ "[" ++ toString i ++ "]" = _
    rw [← String.toList_inj]
    simp
  rw [hitem, secretPath_append rfl, String.ofList_toList, h, Bool.true_or]

/-- The key that took the place of another one is not that of a secret. -/
theorem secretPath_renamedKey (k : String) : secretPath (renamedKey k) = false := by
  unfold renamedKey
  split_ifs <;> decide

theorem secretly_keyPath {secret : Bool} (h : secret = true → secretPath path = true) :
    (secret || secretPath k) = true → secretPath (keyPath path k) = true := by
  intro hor
  rw [secretPath_keyPath]
  rcases Bool.or_eq_true_iff.mp hor with hsecret | hk
  · rw [h hsecret, Bool.true_or]
  · rw [hk, Bool.or_true]

end Paths

/-! ## One step further down -/

section Steps

variable {path k : String} {under : Option String} {secret : Bool} {r₁ f₁ r₂ f₂ v₁ v₂ w₁ w₂ : Json}

/-- Below a key of the files. -/
theorem Pairs.key {said₁ said₂ : Fields}
    (h : Pairs path under secret r₁ (.obj said₁) r₂ (.obj said₂)) (hv₁ : lookup k said₁ = some v₁)
    (hv₂ : lookup k said₂ = some v₂) (hv : alike (secret || secretPath k) v₁ v₂ = true)
    (hw : alike (secret || secretPath k) w₁ w₂ = true)
    (hw₁ : ∀ p, counterpart (.key k :: p) r₁ = counterpart p w₁)
    (hw₂ : ∀ p, counterpart (.key k :: p) r₂ = counterpart p w₂) :
    Pairs (keyPath path k) (some k) (secret || secretPath k) w₁ v₁ w₂ v₂ where
  secretly := secretly_keyPath h.secretly
  running := hw
  files := hv
  wf₁ := wfFields_iff.mp h.wf₁.2 _ (mem_of_lookup hv₁)
  wf₂ := wfFields_iff.mp h.wf₂.2 _ (mem_of_lookup hv₂)
  equalities := by
    intro p a₁ b₁ a₂ b₂ ha₁ hb₁ ha₂ hb₂ hscalar hsecret
    have hget₁ : get (.key k :: p) (.obj said₁) = some a₁ := by
      show (lookup k said₁).bind (get p) = some a₁
      rw [hv₁]
      exact ha₁
    have hget₂ : get (.key k :: p) (.obj said₂) = some a₂ := by
      show (lookup k said₂).bind (get p) = some a₂
      rw [hv₂]
      exact ha₂
    exact h.equalities (.key k :: p) a₁ b₁ a₂ b₂ hget₁ ((hw₁ p).trans hb₁) hget₂ ((hw₂ p).trans hb₂) hscalar hsecret
  settings := by
    intro p j a₁ a₂ ha₁ ha₂ hlast
    refine h.settings (.key k :: p) j a₁ a₂ ?_ ?_ hlast
    · show (lookup k said₁).bind (get (p ++ [.key j])) = some a₁
      rw [hv₁]
      exact ha₁
    · show (lookup k said₂).bind (get (p ++ [.key j])) = some a₂
      rw [hv₂]
      exact ha₂

/-- At an index of the files. -/
theorem Pairs.item {mine₁ said₁ mine₂ said₂ : List Json} {i : ℕ}
    (h : Pairs path under secret (.arr mine₁) (.arr said₁) (.arr mine₂) (.arr said₂))
    (hv₁ : said₁[i]? = some v₁) (hv₂ : said₂[i]? = some v₂) (hw₁ : mine₁[i]? = some w₁) (hw₂ : mine₂[i]? = some w₂)
    (hv : alike secret v₁ v₂ = true) (hw : alike secret w₁ w₂ = true) :
    Pairs s!"{path}[{i}]" under secret w₁ v₁ w₂ v₂ where
  secretly := fun hsecret => secretPath_item (h.secretly hsecret)
  running := hw
  files := hv
  wf₁ := wfList_iff.mp h.wf₁ _ (List.mem_of_getElem? hv₁)
  wf₂ := wfList_iff.mp h.wf₂ _ (List.mem_of_getElem? hv₂)
  equalities := by
    intro p a₁ b₁ a₂ b₂ ha₁ hb₁ ha₂ hb₂ hscalar hsecret
    refine h.equalities (.item i :: p) a₁ b₁ a₂ b₂ ?_ ?_ ?_ ?_ hscalar hsecret
    · show said₁[i]?.bind (get p) = some a₁
      rw [hv₁]
      exact ha₁
    · show mine₁[i]?.bind (counterpart p) = some b₁
      rw [hw₁]
      exact hb₁
    · show said₂[i]?.bind (get p) = some a₂
      rw [hv₂]
      exact ha₂
    · show mine₂[i]?.bind (counterpart p) = some b₂
      rw [hw₂]
      exact hb₂
  settings := by
    intro p j a₁ a₂ ha₁ ha₂ hlast
    refine h.settings (.item i :: p) j a₁ a₂ ?_ ?_ hlast
    · show said₁[i]?.bind (get (p ++ [.key j])) = some a₁
      rw [hv₁]
      exact ha₁
    · show said₂[i]?.bind (get (p ++ [.key j])) = some a₂
      rw [hv₂]
      exact ha₂

end Steps

/-! ## What two walks find -/

/-- Two things, or nothing twice, that are alike. -/
def alikeFound (secret : Bool) (v w : Option Json) : Prop := Option.Rel (fun v w => alike secret v w = true) v w

/-- What two walks find at one place. -/
structure Twin (found₁ found₂ : Found) : Prop where
  path : found₁.path = found₂.path
  values : ∃ secret, (secret = true → secretPath found₁.path = true) ∧
    alikeFound secret found₁.mine found₂.mine ∧ alikeFound secret found₁.theirs found₂.theirs

/-- What the walk over the file has found. -/
def Found.ofWalk (d : Difference) : Found := ⟨d.path, some d.candidate, d.running⟩

/-- Two walks over the files stop at one place, or nowhere. -/
def TwinWalks (d₁ d₂ : Option Difference) : Prop :=
  Option.Rel (fun d₁ d₂ => Twin (.ofWalk d₁) (.ofWalk d₂)) d₁ d₂

section Walk

variable {path : String} {under : Option String} {secret : Bool} {r₁ f₁ r₂ f₂ : Json}

theorem rel_or {α : Type} {R : α → α → Prop} {a₁ a₂ b₁ b₂ : Option α} (ha : Option.Rel R a₁ a₂)
    (hb : Option.Rel R b₁ b₂) : Option.Rel R (a₁.or b₁) (a₂.or b₂) := by
  cases ha with
  | some h => exact .some h
  | none => exact hb

theorem twin_some {v₁ v₂ : Json} {t₁ t₂ : Option Json} (hsecret : secret = true → secretPath path = true)
    (hv : alike secret v₁ v₂ = true) (ht : alikeFound secret t₁ t₂) :
    TwinWalks (some ⟨path, v₁, t₁⟩) (some ⟨path, v₂, t₂⟩) :=
  .some ⟨rfl, secret, hsecret, .some hv, ht⟩

theorem twins_none : TwinWalks none none := .none

theorem walkList_nil (mine : List Json) (i : ℕ) : walkList mine [] under path i = none := by
  cases mine <;> rfl

theorem walkLeaf_eq (r c : Json) (path : String) :
    walkLeaf r c path = if sameLeaf path r c then none else some ⟨path, c, some r⟩ := by
  unfold sameLeaf walkLeaf
  dsimp only
  split_ifs <;> first | rfl | simp_all

/-- A container is no scalar. -/
theorem sameLeaf_container {r c : Json} (hr : isContainer (some r) = true) (hc : isContainer (some c) = false) :
    sameLeaf path r c = false := by
  cases r with
  | arr xs => cases c <;> first | rfl | cases hc
  | obj fs => cases c <;> first | rfl | cases hc
  | _ => cases hr

/-- At a scalar of the files. -/
theorem twins_walkLeaf (h : Pairs path under secret r₁ f₁ r₂ f₂) (hscalar : isContainer (some f₁) = false) :
    TwinWalks (walkLeaf r₁ f₁ path) (walkLeaf r₂ f₂ path) := by
  have hsame : sameLeaf path r₁ f₁ = sameLeaf path r₂ f₂ := by
    cases hsecret : secretPath path with
    | true => exact h.equalities [] f₁ r₁ f₂ r₂ rfl rfl rfl rfl hscalar hsecret
    | false =>
      -- nothing here is secret: the scalars are the same ones
      have hfalse : secret = false := by
        rw [← Bool.not_eq_true]
        intro htrue
        rw [h.secretly htrue] at hsecret
        cases hsecret
      have hfiles := h.files
      have hrunning := h.running
      rw [hfalse] at hfiles hrunning
      obtain rfl := eq_of_alike_scalar hscalar hfiles
      cases hr : isContainer (some r₁) with
      | false => rw [eq_of_alike_scalar hr hrunning]
      | true =>
        have hr₂ : isContainer (some r₂) = true := (alike_isContainer hrunning).trans hr
        rw [sameLeaf_container hr hscalar, sameLeaf_container hr₂ hscalar]
  rw [walkLeaf_eq, walkLeaf_eq, hsame]
  split_ifs
  · exact .none
  · exact twin_some h.secretly h.files (.some h.running)

theorem alikeList_getElem {xs ys : List Json} {i : ℕ} {x : Json} (h : alikeList secret xs ys = true)
    (hx : xs[i]? = some x) : ∃ y, ys[i]? = some y ∧ alike secret x y = true := by
  induction xs generalizing ys i with
  | nil => cases hx
  | cons x' xs ih =>
    obtain ⟨y, ys', rfl, hx', hxs⟩ := alikeList_cons_left h
    cases i with
    | zero =>
      obtain rfl := Option.some.inj hx
      exact ⟨y, rfl, hx'⟩
    | succ i =>
      obtain ⟨y', hy', hx'⟩ := ih hxs hx
      exact ⟨y', hy', hx'⟩

theorem or_weaken {b : Bool} : secret = true → (secret || b) = true := fun h => by rw [h, Bool.true_or]

/-- At the elements of two lists, from an index on. -/
theorem twins_walkList {mine₁ said₁ mine₂ said₂ : List Json}
    (h : Pairs path under secret (.arr mine₁) (.arr said₁) (.arr mine₂) (.arr said₂))
    (ih : ∀ v ∈ said₁, ∀ {path under secret r₁ r₂ f₂}, Pairs path under secret r₁ v r₂ f₂ →
      TwinWalks (walk r₁ v under path) (walk r₂ f₂ under path)) :
    ∀ (i : ℕ), TwinWalks (walkList (mine₁.drop i) (said₁.drop i) under path i)
      (walkList (mine₂.drop i) (said₂.drop i) under path i) := by
  have hmine : alikeList secret mine₁ mine₂ = true := h.running
  have hsaid : alikeList secret said₁ said₂ = true := h.files
  have hmine_length := alikeList_length hmine
  have hsaid_length := alikeList_length hsaid
  -- the induction is on what is left of the lists
  suffices hleft : ∀ n i, said₁.length = i + n → TwinWalks (walkList (mine₁.drop i) (said₁.drop i) under path i)
      (walkList (mine₂.drop i) (said₂.drop i) under path i) by
    intro i
    rcases Nat.le_total i said₁.length with hi | hi
    · exact hleft (said₁.length - i) i (by omega)
    · rw [List.drop_of_length_le hi, List.drop_of_length_le (by omega : said₂.length ≤ i), walkList_nil, walkList_nil]
      exact twins_none
  intro n
  induction n with
  | zero =>
    intro i hi
    rw [List.drop_of_length_le (by omega : said₁.length ≤ i), List.drop_of_length_le (by omega : said₂.length ≤ i),
      walkList_nil, walkList_nil]
    exact twins_none
  | succ n ihn =>
    intro i hi
    have hlt : i < said₁.length := by omega
    have hlt₂ : i < said₂.length := by omega
    rw [List.drop_eq_getElem_cons hlt, List.drop_eq_getElem_cons hlt₂]
    by_cases hm : i < mine₁.length
    · have hm₂ : i < mine₂.length := by omega
      rw [List.drop_eq_getElem_cons hm, List.drop_eq_getElem_cons hm₂]
      have hv₁ : said₁[i]? = some said₁[i] := List.getElem?_eq_getElem hlt
      have hw₁ : mine₁[i]? = some mine₁[i] := List.getElem?_eq_getElem hm
      obtain ⟨v₂, hv₂, hv⟩ := alikeList_getElem hsaid hv₁
      obtain ⟨w₂, hw₂, hw⟩ := alikeList_getElem hmine hw₁
      obtain rfl : said₂[i] = v₂ := Option.some.inj ((List.getElem?_eq_getElem hlt₂).symm.trans hv₂)
      obtain rfl : mine₂[i] = w₂ := Option.some.inj ((List.getElem?_eq_getElem hm₂).symm.trans hw₂)
      refine rel_or ?_ (ihn (i + 1) (by omega))
      exact ih _ (List.getElem_mem hlt) (h.item hv₁ hv₂ hw₁ hw₂ hv hw)
    · rw [List.drop_of_length_le (by omega : mine₁.length ≤ i), List.drop_of_length_le (by omega : mine₂.length ≤ i)]
      exact twins_none

/-- What the daemons run in the place of a key that they do not report. -/
theorem alike_renamed {mine₁ mine₂ : Fields} {k : String} {r : Json} (h : alikeFields secret mine₁ mine₂ = true)
    (hr : lookup (renamedKey k) mine₁ = some r) :
    ∃ r', lookup (renamedKey k) mine₂ = some r' ∧ alike secret r r' = true := by
  obtain ⟨r', hr', halike⟩ := alikeFields_lookup_some h hr
  rw [secretPath_renamedKey, Bool.or_false] at halike
  exact ⟨r', hr', halike⟩

theorem get_key {said : Fields} {k : String} {v : Json} (h : lookup k said = some v) :
    get [.key k] (.obj said) = some v := by
  show (lookup k said).bind (get []) = some v
  rw [h]
  rfl

/-- At some of the entries of two dictionaries. -/
theorem twins_walkFields {mine₁ said₁ mine₂ said₂ : Fields}
    (h : Pairs path under secret (.obj mine₁) (.obj said₁) (.obj mine₂) (.obj said₂))
    (ih : ∀ f ∈ said₁, ∀ {path under secret r₁ r₂ f₂}, Pairs path under secret r₁ f.2 r₂ f₂ →
      TwinWalks (walk r₁ f.2 under path) (walk r₂ f₂ under path)) {part₁ part₂ : Fields}
    (hpart₁ : ∀ f ∈ part₁, f ∈ said₁) (hpart₂ : ∀ f ∈ part₂, f ∈ said₂)
    (hpart : alikeFields secret part₁ part₂ = true) :
    TwinWalks (walkFields mine₁ part₁ under path) (walkFields mine₂ part₂ under path) := by
  induction part₁ generalizing part₂ with
  | nil =>
    rw [List.isEmpty_iff.mp hpart]
    exact twins_none
  | cons f part₁ ihpart =>
    obtain ⟨k, v₁⟩ := f
    obtain ⟨v₂, part₂, rfl, hv, hrest⟩ := alikeFields_cons_left hpart
    have hmine : alikeFields secret mine₁ mine₂ = true := h.running
    have hv₁ : lookup k said₁ = some v₁ := lookup_of_mem h.wf₁.1 (hpart₁ _ List.mem_cons_self)
    have hv₂ : lookup k said₂ = some v₂ := lookup_of_mem h.wf₂.1 (hpart₂ _ List.mem_cons_self)
    have hon : TwinWalks (walkFields mine₁ part₁ under path) (walkFields mine₂ part₂ under path) :=
      ihpart (fun f hf => hpart₁ f (List.mem_cons_of_mem _ hf)) (fun f hf => hpart₂ f (List.mem_cons_of_mem _ hf))
        hrest
    have hbelow : ∀ {w₁ w₂}, alike (secret || secretPath k) w₁ w₂ = true →
        (∀ p, counterpart (.key k :: p) (.obj mine₁) = counterpart p w₁) →
        (∀ p, counterpart (.key k :: p) (.obj mine₂) = counterpart p w₂) →
        TwinWalks (walk w₁ v₁ (some k) (keyPath path k)) (walk w₂ v₂ (some k) (keyPath path k)) :=
      fun hw hw₁ hw₂ => ih _ (hpart₁ _ List.mem_cons_self) (h.key hv₁ hv₂ hv hw hw₁ hw₂)
    have hstop : ∀ {t₁ t₂}, alikeFound (secret || secretPath k) t₁ t₂ →
        TwinWalks (some ⟨keyPath path k, v₁, t₁⟩) (some ⟨keyPath path k, v₂, t₂⟩) :=
      fun ht => twin_some (secretly_keyPath h.secretly) hv ht
    -- the key that neither daemon reports, and no list in its place
    have hmissing : TwinWalks
        (if under = some "interfaces-config" ∧ omittedAtDefault k v₁ then walkFields mine₁ part₁ under path
          else some ⟨keyPath path k, v₁, none⟩)
        (if under = some "interfaces-config" ∧ omittedAtDefault k v₂ then walkFields mine₂ part₂ under path
          else some ⟨keyPath path k, v₂, none⟩) := by
      by_cases hunder : under = some "interfaces-config"
      · have hsame : omittedAtDefault k v₁ = omittedAtDefault k v₂ :=
          h.settings [] k v₁ v₂ (get_key hv₁) (get_key hv₂) hunder
        rw [hsame]
        split_ifs
        · exact hon
        · exact hstop .none
      · rw [if_neg (fun hc => hunder hc.1), if_neg (fun hc => hunder hc.1)]
        exact hstop .none
    rw [walkFields, walkFields]
    cases hr₁ : lookup k mine₁ with
    | some w₁ =>
      obtain ⟨w₂, hr₂, hw⟩ := alikeFields_lookup_some hmine hr₁
      rw [hr₂]
      refine rel_or (hbelow hw (fun p => ?_) fun p => ?_) hon
      · simp only [counterpart, hr₁]
      · simp only [counterpart, hr₂]
    | none =>
      have hr₂ : lookup k mine₂ = none := alikeFields_lookup_none hmine hr₁
      rw [hr₂]
      cases hn₁ : lookup (renamedKey k) mine₁ with
      | none =>
        have hn₂ : lookup (renamedKey k) mine₂ = none := alikeFields_lookup_none hmine hn₁
        rw [hn₂]
        exact hmissing
      | some l₁ =>
        obtain ⟨l₂, hn₂, hl⟩ := alike_renamed hmine hn₁
        rw [hn₂]
        cases l₁ with
        | arr rs₁ =>
          obtain ⟨rs₂, rfl, hrs⟩ := alike_arr_left hl
          cases rs₁ with
          | nil =>
            obtain rfl := List.isEmpty_iff.mp hrs
            exact hstop (.some (alike_weaken hl or_weaken))
          | cons w₁ rs₁ =>
            obtain ⟨w₂, rs₂, rfl, hw, hrs⟩ := alikeList_cons_left hrs
            cases rs₁ with
            | nil =>
              obtain rfl := List.isEmpty_iff.mp hrs
              refine rel_or (hbelow (alike_weaken hw or_weaken) (fun p => ?_) fun p => ?_) hon
              · simp only [counterpart, hr₁, hn₁]
              · simp only [counterpart, hr₂, hn₂]
            | cons x rs₁ =>
              obtain ⟨y, rs₂, rfl, -, -⟩ := alikeList_cons_left hrs
              exact hstop (.some (alike_weaken hl or_weaken))
        | obj fs =>
          obtain ⟨gs, rfl, -⟩ := alike_obj_left hl
          exact hmissing
        | _ =>
          have hscalar : isContainer (some l₂) = false := alike_isContainer hl
          cases l₂ <;> first | exact hmissing | cases hscalar

/-- Two walks over the files stop at one place, or nowhere. -/
theorem twins_walk {f₁ : Json} : ∀ {path under secret r₁ r₂ f₂}, Pairs path under secret r₁ f₁ r₂ f₂ →
    TwinWalks (walk r₁ f₁ under path) (walk r₂ f₂ under path) := by
  induction f₁ with
  | arr said₁ ih =>
    intro path under secret r₁ r₂ f₂ h
    obtain ⟨said₂, rfl, hsaid⟩ := alike_arr_left h.files
    have hrunning := alike_isContainer h.running
    have hlength := alikeList_length hsaid
    have hstop : TwinWalks (some ⟨path, .arr said₁, some r₁⟩) (some ⟨path, .arr said₂, some r₂⟩) :=
      twin_some h.secretly h.files (.some h.running)
    cases r₁ with
    | arr mine₁ =>
      obtain ⟨mine₂, rfl, hmine⟩ := alike_arr_left h.running
      rw [walk, walk, alikeList_length hmine, hlength]
      split_ifs
      · exact twins_walkList h ih 0
      · exact hstop
    | obj mine₁ =>
      obtain ⟨mine₂, rfl, -⟩ := alike_obj_left h.running
      exact hstop
    | _ => cases r₂ <;> first | exact hstop | cases hrunning
  | obj said₁ ih =>
    intro path under secret r₁ r₂ f₂ h
    obtain ⟨said₂, rfl, hsaid⟩ := alike_obj_left h.files
    have hrunning := alike_isContainer h.running
    have hstop : TwinWalks (some ⟨path, .obj said₁, some r₁⟩) (some ⟨path, .obj said₂, some r₂⟩) :=
      twin_some h.secretly h.files (.some h.running)
    cases r₁ with
    | obj mine₁ =>
      obtain ⟨mine₂, rfl, -⟩ := alike_obj_left h.running
      exact twins_walkFields h ih (fun f hf => hf) (fun f hf => hf) hsaid
    | arr mine₁ =>
      obtain ⟨mine₂, rfl, -⟩ := alike_arr_left h.running
      exact hstop
    | _ => cases r₂ <;> first | exact hstop | cases hrunning
  | _ =>
    intro path under secret r₁ r₂ f₂ h
    have hfiles : isContainer (some f₂) = false := alike_isContainer h.files
    cases f₂ <;> first | exact twins_walkLeaf h rfl | cases hfiles

end Walk

end JenKea.Compare
