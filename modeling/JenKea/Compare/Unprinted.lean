import JenKea.Compare.Indexes
import JenKea.Compare.Twins

/-!
# No secret is printed

The sentence about a file and a daemon is the same for every two pairs that differ in secrets alone. A walk that
stops below the key of a secret names the place and no value; anywhere else what is printed is the same, since a
container is printed by its size. The defaults that are recorded must not themselves name secrets: whether a value
is the recorded one is in the sentence, or in that there is none.
-/

namespace JenKea.Compare

open Json Api

/-! ## Defaults that name no secret -/

mutual

/-- No key in the value is that of a secret. -/
def plain : Json → Bool
  | .arr xs => plainList xs
  | .obj fs => plainFields fs
  | _ => true

/-- `plain` of the elements of a list. -/
def plainList : List Json → Bool
  | [] => true
  | x :: xs => plain x && plainList xs

/-- `plain` of the keys of a dictionary, and of its values. -/
def plainFields : Fields → Bool
  | [] => true
  | (k, v) :: fs => !secretPath k && plain v && plainFields fs

end

/-- No path of a secret is a default, and no list that is recorded holds a secret. -/
structure Defaults.NamesNoSecret (d : Defaults) : Prop where
  paths : ∀ path ∈ d.paths, secretPath path = false
  populated : ∀ f ∈ d.populated, WF f.2 ∧ plain f.2 = true

section Plain

variable {v w : Json} {xs ys : List Json} {fs gs : Fields}

theorem plainList_iff : plainList xs = true ↔ ∀ x ∈ xs, plain x = true := by
  induction xs with
  | nil => exact ⟨fun _ x hx => absurd hx List.not_mem_nil, fun _ => rfl⟩
  | cons x xs ih => rw [plainList, Bool.and_eq_true_iff, ih, List.forall_mem_cons]

theorem plainFields_iff : plainFields fs = true ↔ ∀ f ∈ fs, secretPath f.1 = false ∧ plain f.2 = true := by
  induction fs with
  | nil => exact ⟨fun _ f hf => absurd hf List.not_mem_nil, fun _ => rfl⟩
  | cons f fs ih =>
    rw [plainFields, Bool.and_eq_true_iff, Bool.and_eq_true_iff, ih, List.forall_mem_cons, Bool.not_eq_true']

/-- What is equal to something without secrets has none. -/
theorem plain_of_pyEq (h : pyEq v w = true) (hw : plain w = true) : plain v = true := by
  induction v generalizing w with
  | arr xs ih =>
    cases w with
    | arr ys =>
      rw [pyEq_arr] at h
      refine plainList_iff.mpr ?_
      have hys : ∀ y ∈ ys, plain y = true := plainList_iff.mp hw
      clear hw
      induction xs generalizing ys with
      | nil => exact fun x hx => absurd hx List.not_mem_nil
      | cons x xs ihxs =>
        cases ys with
        | nil => cases h
        | cons y ys =>
          obtain ⟨hx, hxs⟩ := Bool.and_eq_true_iff.mp h
          rw [List.forall_mem_cons] at hys
          refine List.forall_mem_cons.mpr ⟨ih x List.mem_cons_self hx hys.1, ?_⟩
          exact ihxs (fun x' hx' => ih x' (List.mem_cons_of_mem _ hx')) ys hxs hys.2
    | _ => cases h
  | obj fs ih =>
    cases w with
    | obj gs =>
      rw [pyEq_obj, Bool.and_eq_true_iff, pyEqFields_iff] at h
      have hgs := plainFields_iff.mp hw
      refine plainFields_iff.mpr fun f hf => ?_
      obtain ⟨g, hg, hfg⟩ := h.2 f hf
      have hmem := hgs _ (mem_of_lookup hg)
      exact ⟨hmem.1, ih f hf hfg hmem.2⟩
    | _ => cases h
  | _ => rfl

/-- Where nothing is secret, what is alike is the same. -/
theorem eq_of_alike (h : alike false v w = true) (hv : plain v = true) : v = w := by
  induction v generalizing w with
  | arr xs ih =>
    obtain ⟨ys, rfl, hxs⟩ := alike_arr_left h
    have hplain := plainList_iff.mp hv
    congr 1
    clear h hv
    induction xs generalizing ys with
    | nil => exact (List.isEmpty_iff.mp hxs).symm
    | cons x xs ihxs =>
      obtain ⟨y, ys, rfl, hx, hxs⟩ := alikeList_cons_left hxs
      rw [List.forall_mem_cons] at hplain
      rw [ih x List.mem_cons_self hx hplain.1,
        ihxs (fun x' hx' => ih x' (List.mem_cons_of_mem _ hx')) ys hxs hplain.2]
  | obj fs ih =>
    obtain ⟨gs, rfl, hfs⟩ := alike_obj_left h
    have hplain := plainFields_iff.mp hv
    congr 1
    clear h hv
    induction fs generalizing gs with
    | nil => exact (List.isEmpty_iff.mp hfs).symm
    | cons f fs ihfs =>
      obtain ⟨k, u⟩ := f
      obtain ⟨w, gs, rfl, hf, hrest⟩ := alikeFields_cons_left hfs
      rw [List.forall_mem_cons] at hplain
      have hu : alike false u w = true := by
        have hk : secretPath k = false := hplain.1.1
        rw [hk] at hf
        exact hf
      obtain rfl : u = w := ih (k, u) List.mem_cons_self hu hplain.1.2
      rw [ihfs (fun f' hf' => ih f' (List.mem_cons_of_mem _ hf')) gs hrest hplain.2]
  | _ => exact eq_of_alike_scalar rfl h

end Plain

/-! ## What is a default -/

/-- The objects around a value, of two daemons. -/
def alikeChain (path : String) (chain₁ chain₂ : List Json) : Prop :=
  List.Forall₂ (fun s₁ s₂ => ∃ secret, (secret = true → secretPath path = true) ∧ alike secret s₁ s₂ = true)
    chain₁ chain₂

section Default

variable {d : Defaults} {path path' : String} {chain₁ chain₂ : List Json} {v v₁ v₂ : Json} {secret : Bool}

theorem alikeChain.below (h : alikeChain path chain₁ chain₂) (hpath : secretPath path = true → secretPath path' = true) :
    alikeChain path' chain₁ chain₂ :=
  h.imp fun _ _ ⟨secret, hsecret, halike⟩ => ⟨secret, fun hs => hpath (hsecret hs), halike⟩

theorem not_secret (hsecret : secret = true → secretPath path = true) (hpath : secretPath path = false) :
    secret = false := by
  rw [← Bool.not_eq_true]
  intro htrue
  rw [hsecret htrue] at hpath
  cases hpath

theorem sameScalar_container {w : Json} (hw : isContainer (some w) = true) (hv : isContainer (some v) = false) :
    sameScalar w v = false := by
  cases w with
  | arr xs => cases v <;> first | rfl | cases hv
  | obj fs => cases v <;> first | rfl | cases hv
  | _ => cases hw

/-- What a scalar that is not secret inherits, it inherits from both daemons. -/
theorem inherited_rel {key : String} (hpath : secretPath path = false) (hkey : secretPath key = false)
    (hchain : alikeChain path chain₁ chain₂) :
    Option.Rel (fun w₁ w₂ => alike false w₁ w₂ = true) (inherited key chain₁) (inherited key chain₂) := by
  induction hchain with
  | nil => exact .none
  | @cons s₁ s₂ rest₁ rest₂ hs _ ih =>
    obtain ⟨secret, hsecret, halike⟩ := hs
    rw [not_secret hsecret hpath] at halike
    cases s₁ with
    | obj fs =>
      obtain ⟨gs, rfl, hfs⟩ := alike_obj_left halike
      refine rel_or ?_ ih
      cases hlookup : lookup key fs with
      | none =>
        rw [alikeFields_lookup_none hfs hlookup]
        exact .none
      | some w₁ =>
        obtain ⟨w₂, hw₂, hw⟩ := alikeFields_lookup_some hfs hlookup
        rw [hkey] at hw
        rw [hw₂]
        exact .some hw
    | arr xs =>
      obtain ⟨ys, rfl, -⟩ := alike_arr_left halike
      exact ih
    | _ =>
      have hscalar := alike_isContainer halike
      cases s₂ <;> first | exact ih | cases hscalar

/-- A scalar that is not secret is a default of both daemons, or of neither. -/
theorem isScalarDefault_eq (hpath : secretPath path = false) (hchain : alikeChain path chain₁ chain₂)
    (hv : isContainer (some v) = false) : isScalarDefault d path chain₁ v = isScalarDefault d path chain₂ v := by
  have hkey : secretPath (lastSegment path) = false := secretPath_lastSegment hpath
  have htail : alikeChain path chain₁.tail chain₂.tail := by
    cases hchain with
    | nil => exact .nil
    | cons _ htail => exact htail
  have hinherited := inherited_rel hpath hkey htail
  unfold isScalarDefault
  cases d.scalars with
  | none => rfl
  | some scalars =>
    dsimp only
    cases h₁ : inherited (lastSegment path) chain₁.tail with
    | none =>
      rw [h₁] at hinherited
      cases h₂ : inherited (lastSegment path) chain₂.tail with
      | none => rfl
      | some w₂ =>
        rw [h₂] at hinherited
        cases hinherited
    | some w₁ =>
      rw [h₁] at hinherited
      cases h₂ : inherited (lastSegment path) chain₂.tail with
      | none =>
        rw [h₂] at hinherited
        cases hinherited
      | some w₂ =>
        rw [h₂] at hinherited
        cases hinherited with
        | some hw =>
          show sameScalar w₁ v = sameScalar w₂ v
          cases hc : isContainer (some w₁) with
          | false => rw [eq_of_alike_scalar hc hw]
          | true =>
            have hc₂ : isContainer (some w₂) = true := (alike_isContainer hw).trans hc
            rw [sameScalar_container hc hv, sameScalar_container hc₂ hv]

/-- Nothing below the key of a secret is a default. -/
theorem isDefault_secret (hd : d.NamesNoSecret) (hpath : secretPath path = true) (chain : List Json) (v : Json) :
    isDefault d path chain v = false := by
  have hblank : d.paths.contains (blankPath path) = false := by
    rw [← Bool.not_eq_true, List.contains_iff_mem]
    intro hmem
    have hblank := hd.paths _ hmem
    rw [secretPath_blankPath hpath] at hblank
    cases hblank
  cases v <;> exact Bool.and_eq_false_imp.mpr fun h => absurd (h.symm.trans hblank) (by decide)

theorem isDefault_of_scalar (hv : isContainer (some v) = false) (chain : List Json) :
    isDefault d path chain v = (d.paths.contains (blankPath path) && isScalarDefault d path chain v) := by
  cases v <;> first | rfl | cases hv

/-- A list that is alike is recorded when the other one is. -/
theorem recorded_eq {xs ys : List Json} (hd : d.NamesNoSecret) (hwf₁ : WF (.arr xs)) (hwf₂ : WF (.arr ys))
    (h : alike false (.arr xs) (.arr ys) = true) :
    ((lookup (blankPath path) d.populated).any fun l => l.pyEq (.arr xs)) =
      (lookup (blankPath path) d.populated).any fun l => l.pyEq (.arr ys) := by
  cases hl : lookup (blankPath path) d.populated with
  | none => rfl
  | some l =>
    obtain ⟨hwf, hplain⟩ := hd.populated _ (mem_of_lookup hl)
    show l.pyEq (.arr xs) = l.pyEq (.arr ys)
    rw [Bool.eq_iff_iff]
    constructor
    · intro hx
      rw [← eq_of_alike h (plain_of_pyEq (pyEq_symm hwf hwf₁ hx) hplain)]
      exact hx
    · intro hy
      rw [← eq_of_alike (alike_symm h) (plain_of_pyEq (pyEq_symm hwf hwf₂ hy) hplain)]
      exact hy

/-- What is a default of one daemon is one of the other. -/
theorem isDefault_eq (hd : d.NamesNoSecret) (hwf₁ : WF v₁) (hwf₂ : WF v₂)
    (hsecret : secret = true → secretPath path = true) (hv : alike secret v₁ v₂ = true)
    (hchain : alikeChain path chain₁ chain₂) : isDefault d path chain₁ v₁ = isDefault d path chain₂ v₂ := by
  induction v₁ generalizing secret path chain₁ chain₂ v₂ with
  | arr xs ih =>
    cases hpath : secretPath path with
    | true => rw [isDefault_secret hd hpath, isDefault_secret hd hpath]
    | false =>
      obtain rfl := not_secret hsecret hpath
      obtain ⟨ys, rfl, hxs⟩ := alike_arr_left hv
      show (_ && (xs.isEmpty || _)) = (_ && (ys.isEmpty || _))
      have hempty : xs.isEmpty = ys.isEmpty := by
        rw [Bool.eq_iff_iff, List.isEmpty_iff_length_eq_zero, List.isEmpty_iff_length_eq_zero, alikeList_length hxs]
      rw [hempty, recorded_eq hd hwf₁ hwf₂ hv]
  | obj fs ih =>
    cases hpath : secretPath path with
    | true => rw [isDefault_secret hd hpath, isDefault_secret hd hpath]
    | false =>
      obtain rfl := not_secret hsecret hpath
      obtain ⟨gs, rfl, hfs⟩ := alike_obj_left hv
      show (_ && areDefaults d path (.obj fs :: chain₁) fs) = (_ && areDefaults d path (.obj gs :: chain₂) gs)
      congr 1
      have hchain' : alikeChain path (.obj fs :: chain₁) (.obj gs :: chain₂) :=
        .cons ⟨false, hsecret, hv⟩ hchain
      have hfs₁ := wfFields_iff.mp hwf₁.2
      have hgs₂ := wfFields_iff.mp hwf₂.2
      generalize Json.obj fs :: chain₁ = around₁ at hchain'
      generalize Json.obj gs :: chain₂ = around₂ at hchain'
      clear hv hwf₁ hwf₂
      induction fs generalizing gs with
      | nil => rw [List.isEmpty_iff.mp hfs]; rfl
      | cons f fs ihfs =>
        obtain ⟨k, u⟩ := f
        obtain ⟨w, gs, rfl, hf, hrest⟩ := alikeFields_cons_left hfs
        rw [List.forall_mem_cons] at hfs₁ hgs₂
        have hbelow : secretPath path = true → secretPath (path ++ "." ++ k) = true := fun h => by
          rw [h] at hpath
          cases hpath
        have hkey : (false || secretPath k) = true → secretPath (path ++ "." ++ k) = true := fun h => by
          rw [secretPath_dot, ← h, hpath]
        rw [areDefaults, areDefaults, ih (k, u) List.mem_cons_self hfs₁.1 hgs₂.1 hkey hf (hchain'.below hbelow),
          ihfs (fun f' hf' => ih f' (List.mem_cons_of_mem _ hf')) gs hrest hfs₁.2 hgs₂.2]
  | _ =>
    cases hpath : secretPath path with
    | true => rw [isDefault_secret hd hpath, isDefault_secret hd hpath]
    | false =>
      obtain rfl := not_secret hsecret hpath
      obtain rfl := eq_of_alike_scalar rfl hv
      rw [isDefault_of_scalar rfl, isDefault_of_scalar rfl, isScalarDefault_eq hpath hchain rfl]

end Default

/-! ## The way back -/

/-- What two walks over the daemons find at one place. -/
def TwinLacks : Option (String × Json) → Option (String × Json) → Prop :=
  Option.Rel fun found₁ found₂ => found₁.1 = found₂.1 ∧
    ∃ secret, (secret = true → secretPath found₁.1 = true) ∧ alike secret found₁.2 found₂.2 = true

/-- What is the same at every step of the two walks. -/
structure Beside (path : String) (scope₁ scope₂ : List Json) (secret : Bool) (r₁ f₁ r₂ f₂ : Json) : Prop where
  secretly : secret = true → secretPath path = true
  running : alike secret r₁ r₂ = true
  files : alike secret f₁ f₂ = true
  wf₁ : WF r₁
  wf₂ : WF r₂
  scope : alikeChain path scope₁ scope₂

section Lacks

variable {d : Defaults} {path : String} {scope₁ scope₂ : List Json} {secret : Bool} {r₁ f₁ r₂ f₂ : Json}
variable {mine₁ said₁ mine₂ said₂ : Fields}

theorem lacks_none : TwinLacks none none := .none

theorem accounts_eq (hmine : alikeFields secret mine₁ mine₂ = true) (k : String) :
    accounts mine₁ k = accounts mine₂ k := by
  unfold accounts
  cases hk : lookup k mine₁ with
  | some u =>
    obtain ⟨u', hu', -⟩ := alikeFields_lookup_some hmine hk
    rw [hu']
  | none =>
    rw [alikeFields_lookup_none hmine hk]
    cases hn : lookup (renamedKey k) mine₁ with
    | none => rw [alikeFields_lookup_none hmine hn]
    | some l₁ =>
      obtain ⟨l₂, hl₂, hl⟩ := alike_renamed hmine hn
      rw [hl₂]
      cases l₁ with
      | arr rs₁ =>
        obtain ⟨rs₂, rfl, hrs⟩ := alike_arr_left hl
        have hlength := alikeList_length hrs
        match rs₁, rs₂, hlength with
        | [], [], _ => rfl
        | [_], [_], _ => rfl
        | _ :: _ :: _, _ :: _ :: _, _ => rfl
      | obj fs =>
        obtain ⟨gs, rfl, -⟩ := alike_obj_left hl
        rfl
      | _ =>
        have hscalar := alike_isContainer hl
        cases l₂ <;> first | rfl | cases hscalar

theorem accounted_eq (hmine : alikeFields secret mine₁ mine₂ = true) (hsaid : alikeFields secret said₁ said₂ = true) :
    accounted mine₁ said₁ = accounted mine₂ said₂ := by
  induction said₁ generalizing said₂ with
  | nil => rw [List.isEmpty_iff.mp hsaid]; rfl
  | cons f said₁ ih =>
    obtain ⟨w, said₂, rfl, -, hrest⟩ := alikeFields_cons_left hsaid
    have hon := ih hrest
    unfold accounted at hon ⊢
    rw [List.filterMap_cons, List.filterMap_cons, accounts_eq hmine f.1, hon]

/-- The keys that the files do not say. -/
theorem twins_unsaid (hd : d.NamesNoSecret) (hsecret : secret = true → secretPath path = true)
    (hmine : alikeFields secret mine₁ mine₂ = true) (hsaid : alikeFields secret said₁ said₂ = true)
    (hwf₁ : ∀ f ∈ mine₁, WF f.2) (hwf₂ : ∀ f ∈ mine₂, WF f.2) (hscope : alikeChain path scope₁ scope₂) :
    TwinLacks (unsaid d mine₁ said₁ path scope₁) (unsaid d mine₂ said₂ path scope₂) := by
  unfold unsaid
  rw [accounted_eq hmine hsaid]
  generalize accounted mine₂ said₂ = keys
  induction mine₁ generalizing mine₂ with
  | nil =>
    rw [List.isEmpty_iff.mp hmine]
    exact .none
  | cons f mine₁ ih =>
    obtain ⟨k, v⟩ := f
    obtain ⟨w, mine₂, rfl, hv, hrest⟩ := alikeFields_cons_left hmine
    rw [List.forall_mem_cons] at hwf₁ hwf₂
    have hbelow : secretPath path = true → secretPath (keyPath path k) = true := fun h => by
      rw [secretPath_keyPath, h, Bool.true_or]
    have hsame : isDefault d (keyPath path k) scope₁ v = isDefault d (keyPath path k) scope₂ w :=
      isDefault_eq hd hwf₁.1 hwf₂.1 (secretly_keyPath hsecret) hv (hscope.below hbelow)
    rw [List.find?_cons, List.find?_cons]
    dsimp only
    rw [hsame]
    cases !keys.contains k && !isDefault d (keyPath path k) scope₂ w with
    | true => exact .some ⟨rfl, _, secretly_keyPath hsecret, hv⟩
    | false => exact ih hrest hwf₁.2 hwf₂.2

theorem Beside.item {mine₁ said₁ mine₂ said₂ : List Json} {v₁ w₁ v₂ w₂ : Json} {i : ℕ}
    (h : Beside path scope₁ scope₂ secret (.arr (w₁ :: mine₁)) (.arr (v₁ :: said₁)) (.arr (w₂ :: mine₂))
      (.arr (v₂ :: said₂))) :
    Beside s!"{path}[{i}]" scope₁ scope₂ secret w₁ v₁ w₂ v₂ ∧
      Beside path scope₁ scope₂ secret (.arr mine₁) (.arr said₁) (.arr mine₂) (.arr said₂) := by
  obtain ⟨hw, hmine⟩ := Bool.and_eq_true_iff.mp h.running
  obtain ⟨hv, hsaid⟩ := Bool.and_eq_true_iff.mp h.files
  constructor
  · exact ⟨fun hs => secretPath_item (h.secretly hs), hw, hv, h.wf₁.1, h.wf₂.1, h.scope.below secretPath_item⟩
  · exact ⟨h.secretly, hmine, hsaid, h.wf₁.2, h.wf₂.2, h.scope⟩

theorem twins_lacksList {mine₁ said₁ mine₂ said₂ : List Json}
    (h : Beside path scope₁ scope₂ secret (.arr mine₁) (.arr said₁) (.arr mine₂) (.arr said₂))
    (ih : ∀ v ∈ said₁, ∀ {path scope₁ scope₂ secret r₁ r₂ f₂}, Beside path scope₁ scope₂ secret r₁ v r₂ f₂ →
      TwinLacks (lacks d r₁ v path scope₁) (lacks d r₂ f₂ path scope₂)) (i : ℕ) :
    TwinLacks (lacksList d mine₁ said₁ path scope₁ i) (lacksList d mine₂ said₂ path scope₂ i) := by
  induction said₁ generalizing mine₁ mine₂ said₂ i with
  | nil =>
    obtain rfl := List.isEmpty_iff.mp h.files
    cases mine₁ <;> cases mine₂ <;> exact lacks_none
  | cons v₁ said₁ ihsaid =>
    obtain ⟨v₂, said₂, rfl, -, -⟩ := alikeList_cons_left h.files
    cases mine₁ with
    | nil =>
      obtain rfl := List.isEmpty_iff.mp h.running
      exact lacks_none
    | cons w₁ mine₁ =>
      obtain ⟨w₂, mine₂, rfl, -, -⟩ := alikeList_cons_left h.running
      obtain ⟨hhead, hrest⟩ := h.item (i := i)
      refine rel_or (ih v₁ List.mem_cons_self hhead) ?_
      exact ihsaid hrest (fun v hv => ih v (List.mem_cons_of_mem _ hv)) (i + 1)

theorem twins_lacksFields (hsecret : secret = true → secretPath path = true)
    (hmine : alikeFields secret mine₁ mine₂ = true) (hsaid : alikeFields secret said₁ said₂ = true)
    (hwf₁ : ∀ f ∈ mine₁, WF f.2) (hwf₂ : ∀ f ∈ mine₂, WF f.2) (hscope : alikeChain path scope₁ scope₂)
    (ih : ∀ f ∈ said₁, ∀ {path scope₁ scope₂ secret r₁ r₂ f₂}, Beside path scope₁ scope₂ secret r₁ f.2 r₂ f₂ →
      TwinLacks (lacks d r₁ f.2 path scope₁) (lacks d r₂ f₂ path scope₂)) :
    TwinLacks (lacksFields d mine₁ said₁ path scope₁) (lacksFields d mine₂ said₂ path scope₂) := by
  induction said₁ generalizing said₂ with
  | nil =>
    rw [List.isEmpty_iff.mp hsaid]
    exact lacks_none
  | cons f said₁ ihsaid =>
    obtain ⟨k, v₁⟩ := f
    obtain ⟨v₂, said₂, rfl, hv, hrest⟩ := alikeFields_cons_left hsaid
    have hon := ihsaid hrest fun f hf => ih f (List.mem_cons_of_mem _ hf)
    have hbelow : secretPath path = true → secretPath (keyPath path k) = true := fun h => by
      rw [secretPath_keyPath, h, Bool.true_or]
    have hdown : ∀ {w₁ w₂}, alike (secret || secretPath k) w₁ w₂ = true → WF w₁ → WF w₂ →
        TwinLacks (lacks d w₁ v₁ (keyPath path k) scope₁) (lacks d w₂ v₂ (keyPath path k) scope₂) :=
      fun hw hw₁ hw₂ => ih _ List.mem_cons_self ⟨secretly_keyPath hsecret, hw, hv, hw₁, hw₂, hscope.below hbelow⟩
    rw [lacksFields, lacksFields]
    cases hr₁ : lookup k mine₁ with
    | some w₁ =>
      obtain ⟨w₂, hr₂, hw⟩ := alikeFields_lookup_some hmine hr₁
      rw [hr₂]
      exact rel_or (hdown hw (hwf₁ _ (mem_of_lookup hr₁)) (hwf₂ _ (mem_of_lookup hr₂))) hon
    | none =>
      rw [alikeFields_lookup_none hmine hr₁]
      cases hn₁ : lookup (renamedKey k) mine₁ with
      | none =>
        rw [alikeFields_lookup_none hmine hn₁]
        exact hon
      | some l₁ =>
        obtain ⟨l₂, hn₂, hl⟩ := alike_renamed hmine hn₁
        rw [hn₂]
        have hl₁ := hwf₁ _ (mem_of_lookup hn₁)
        have hl₂ := hwf₂ _ (mem_of_lookup hn₂)
        cases l₁ with
        | arr rs₁ =>
          obtain ⟨rs₂, rfl, hrs⟩ := alike_arr_left hl
          have hlength := alikeList_length hrs
          match rs₁, rs₂, hlength with
          | [], [], _ => exact hon
          | [w₁], [w₂], _ =>
            have hw : alike secret w₁ w₂ = true := (Bool.and_eq_true_iff.mp hrs).1
            exact rel_or (hdown (alike_weaken hw or_weaken) hl₁.1 hl₂.1) hon
          | _ :: _ :: _, _ :: _ :: _, _ => exact hon
        | obj fs =>
          obtain ⟨gs, rfl, -⟩ := alike_obj_left hl
          exact hon
        | _ =>
          have hscalar := alike_isContainer hl
          cases l₂ <;> first | exact hon | cases hscalar

/-- Two walks over the daemons stop at one place, or nowhere. -/
theorem twins_lacks (hd : d.NamesNoSecret) {f₁ : Json} :
    ∀ {path scope₁ scope₂ secret r₁ r₂ f₂}, Beside path scope₁ scope₂ secret r₁ f₁ r₂ f₂ →
      TwinLacks (lacks d r₁ f₁ path scope₁) (lacks d r₂ f₂ path scope₂) := by
  induction f₁ with
  | arr said₁ ih =>
    intro path scope₁ scope₂ secret r₁ r₂ f₂ h
    obtain ⟨said₂, rfl, hsaid⟩ := alike_arr_left h.files
    have hrunning := alike_isContainer h.running
    cases r₁ with
    | arr mine₁ =>
      obtain ⟨mine₂, rfl, hmine⟩ := alike_arr_left h.running
      rw [lacks, lacks, alikeList_length hmine, alikeList_length hsaid]
      split_ifs
      · exact twins_lacksList h ih 0
      · exact lacks_none
    | obj mine₁ =>
      obtain ⟨mine₂, rfl, -⟩ := alike_obj_left h.running
      exact lacks_none
    | _ => cases r₂ <;> first | exact lacks_none | cases hrunning
  | obj said₁ ih =>
    intro path scope₁ scope₂ secret r₁ r₂ f₂ h
    obtain ⟨said₂, rfl, hsaid⟩ := alike_obj_left h.files
    have hrunning := alike_isContainer h.running
    cases r₁ with
    | obj mine₁ =>
      obtain ⟨mine₂, rfl, hmine⟩ := alike_obj_left h.running
      have hwf₁ := wfFields_iff.mp h.wf₁.2
      have hwf₂ := wfFields_iff.mp h.wf₂.2
      have hscope : alikeChain path (.obj mine₁ :: scope₁) (.obj mine₂ :: scope₂) :=
        .cons ⟨secret, h.secretly, h.running⟩ h.scope
      rw [lacks, lacks]
      exact rel_or (twins_lacksFields h.secretly hmine hsaid hwf₁ hwf₂ hscope ih)
        (twins_unsaid hd h.secretly hmine hsaid hwf₁ hwf₂ hscope)
    | arr mine₁ =>
      obtain ⟨mine₂, rfl, -⟩ := alike_arr_left h.running
      exact lacks_none
    | _ => cases r₂ <;> first | exact lacks_none | cases hrunning
  | _ =>
    intro path scope₁ scope₂ secret r₁ r₂ f₂ h
    have hfiles := alike_isContainer h.files
    cases f₂ <;> first | exact lacks_none | cases hfiles

end Lacks

/-! ## The sentence -/

section Sentence

variable {secret : Bool} {v w : Json} {mine₁ mine₂ theirs₁ theirs₂ : Option Json} {found₁ found₂ : Found}
variable (withoutUserinfo : String → String) (dumps : Json → String)

theorem isContainer_eq (h : alikeFound secret mine₁ mine₂) : isContainer mine₁ = isContainer mine₂ := by
  cases h with
  | some h => exact (alike_isContainer h).symm
  | none => rfl

theorem shape_eq (h : alike secret v w = true) (hv : isContainer (some v) = true) : shape v = shape w := by
  cases v with
  | arr xs =>
    obtain ⟨ys, rfl, hxs⟩ := alike_arr_left h
    unfold shape
    dsimp only
    rw [alikeList_length hxs]
  | obj fs =>
    obtain ⟨gs, rfl, hfs⟩ := alike_obj_left h
    unfold shape
    dsimp only
    rw [alikeFields_length hfs]
  | _ => cases hv

theorem kind_eq (h : alikeFound false mine₁ mine₂) : kind mine₁ = kind mine₂ := by
  cases h with
  | none => rfl
  | @some v w h =>
    cases v with
    | arr xs =>
      obtain ⟨ys, rfl, -⟩ := alike_arr_left h
      exact shape_eq h rfl
    | obj fs =>
      obtain ⟨gs, rfl, -⟩ := alike_obj_left h
      exact shape_eq h rfl
    | _ => rw [eq_of_alike_scalar rfl h]

theorem leaf_eq (h : alikeFound false mine₁ mine₂) :
    leaf withoutUserinfo dumps mine₁ = leaf withoutUserinfo dumps mine₂ := by
  cases h with
  | none => rfl
  | @some v w h =>
    cases v with
    | arr xs =>
      obtain ⟨ys, rfl, -⟩ := alike_arr_left h
      exact shape_eq h rfl
    | obj fs =>
      obtain ⟨gs, rfl, -⟩ := alike_obj_left h
      exact shape_eq h rfl
    | _ => rw [eq_of_alike_scalar rfl h]

theorem values_eq {path : String} (hmine : alikeFound false mine₁ mine₂) (htheirs : alikeFound false theirs₁ theirs₂) :
    sentence.values withoutUserinfo dumps path mine₁ theirs₁ =
      sentence.values withoutUserinfo dumps path mine₂ theirs₂ := by
  unfold sentence.values
  rw [isContainer_eq hmine, isContainer_eq htheirs, kind_eq hmine, kind_eq htheirs,
    leaf_eq withoutUserinfo dumps hmine, leaf_eq withoutUserinfo dumps htheirs]

theorem entries_eq {path : String} (hmine : alikeFound false mine₁ mine₂)
    (htheirs : alikeFound false theirs₁ theirs₂) :
    entries ⟨path, mine₁, theirs₁⟩ = entries ⟨path, mine₂, theirs₂⟩ := by
  cases hmine with
  | none => rfl
  | some hmine =>
    cases htheirs with
    | none => rfl
    | @some v w h =>
      cases v with
      | arr xs =>
        obtain ⟨ys, rfl, hxs⟩ := alike_arr_left h
        unfold entries
        dsimp only
        rw [alikeList_length hxs]
      | obj fs =>
        obtain ⟨gs, rfl, -⟩ := alike_obj_left h
        rfl
      | _ =>
        obtain rfl := eq_of_alike_scalar rfl h
        rfl

/-- What two walks find at one place is one sentence. -/
theorem sentence_eq (h : Twin found₁ found₂) :
    sentence withoutUserinfo dumps found₁ = sentence withoutUserinfo dumps found₂ := by
  obtain ⟨hpath, secret, hsecret, hmine, htheirs⟩ := h
  obtain ⟨path, mine₁, theirs₁⟩ := found₁
  obtain ⟨path₂, mine₂, theirs₂⟩ := found₂
  obtain rfl : path = path₂ := hpath
  unfold sentence
  dsimp only
  cases hsecretly : secretPath path with
  | true => rfl
  | false =>
    obtain rfl : secret = false := not_secret hsecret hsecretly
    rw [entries_eq hmine htheirs, values_eq withoutUserinfo dumps hmine htheirs]

end Sentence

/-! ## Two pairs of configurations -/

/-- The path of the section of a service. -/
def sectionPath (service : Service) : String := (serviceKey service).getD service.toText

/-- Two files and the daemons that run beside them: they differ in values below the keys of secrets alone, which are
of the same kinds, and they agree on which of them are equal. -/
structure OnlySecrets (service : Service) (file₁ live₁ file₂ live₂ : Option Cfg) : Prop where
  files : alikeFields false (file₁.getD []) (file₂.getD []) = true
  lives : alikeFields false (live₁.getD []) (live₂.getD []) = true
  wfFile₁ : WF (.obj (file₁.getD []))
  wfFile₂ : WF (.obj (file₂.getD []))
  wfLive₁ : WF (.obj (live₁.getD []))
  wfLive₂ : WF (.obj (live₂.getD []))
  equalities : SameEqualities (sectionPath service) (sectionOf live₁ service) (sectionOf file₁ service)
    (sectionOf live₂ service) (sectionOf file₂ service)
  settings : SameSettings none (sectionOf file₁ service) (sectionOf file₂ service)

section Sections

variable {service : Service} {cfg₁ cfg₂ file₁ live₁ file₂ live₂ : Option Cfg} {defaults : Option Defaults}

theorem secretPath_service (service : Service) : secretPath ((serviceKey service).getD "") = false := by
  cases service <;> decide

theorem falsy_eq {v w : Json} (h : alike false v w = true) : v.falsy = w.falsy := by
  cases v with
  | arr xs =>
    obtain ⟨ys, rfl, hxs⟩ := alike_arr_left h
    have hlength := alikeList_length hxs
    show xs.isEmpty = ys.isEmpty
    rw [Bool.eq_iff_iff, List.isEmpty_iff_length_eq_zero, List.isEmpty_iff_length_eq_zero, hlength]
  | obj fs =>
    obtain ⟨gs, rfl, hfs⟩ := alike_obj_left h
    have hlength := alikeFields_length hfs
    show fs.isEmpty = gs.isEmpty
    rw [Bool.eq_iff_iff, List.isEmpty_iff_length_eq_zero, List.isEmpty_iff_length_eq_zero, hlength]
  | _ => rw [eq_of_alike_scalar rfl h]

theorem alike_sectionOf (h : alikeFields false (cfg₁.getD []) (cfg₂.getD []) = true) :
    alike false (sectionOf cfg₁ service) (sectionOf cfg₂ service) = true := by
  unfold sectionOf
  cases hv : lookup ((serviceKey service).getD "") (cfg₁.getD []) with
  | none =>
    rw [alikeFields_lookup_none h hv]
    rfl
  | some v =>
    obtain ⟨w, hw, halike⟩ := alikeFields_lookup_some h hv
    rw [secretPath_service, Bool.or_false] at halike
    rw [hw]
    show alike false (if v.falsy then _ else _) (if w.falsy then _ else _) = true
    rw [falsy_eq halike]
    split_ifs
    · rfl
    · exact halike

theorem wf_sectionOf (h : WF (.obj (cfg₁.getD []))) : WF (sectionOf cfg₁ service) := by
  unfold sectionOf
  cases hv : lookup ((serviceKey service).getD "") (cfg₁.getD []) with
  | none => exact ⟨List.nodup_nil, trivial⟩
  | some v =>
    show WF (if v.falsy then _ else _)
    split_ifs
    · exact ⟨List.nodup_nil, trivial⟩
    · exact wfFields_iff.mp h.2 _ (mem_of_lookup hv)

/-- Two walks over two pairs find one place, or nothing. -/
theorem twins_find (h : OnlySecrets service file₁ live₁ file₂ live₂) (hdefaults : ∀ d ∈ defaults, d.NamesNoSecret) :
    Option.Rel Twin (find (sectionOf live₁ service) (sectionOf file₁ service) (sectionPath service) defaults)
      (find (sectionOf live₂ service) (sectionOf file₂ service) (sectionPath service) defaults) := by
  have hfiles : alike false (sectionOf file₁ service) (sectionOf file₂ service) = true := alike_sectionOf h.files
  have hlives : alike false (sectionOf live₁ service) (sectionOf live₂ service) = true := alike_sectionOf h.lives
  have hnone : ∀ path, false = true → secretPath path = true := fun _ hfalse => by cases hfalse
  have hpairs : Pairs (sectionPath service) none false (sectionOf live₁ service) (sectionOf file₁ service)
      (sectionOf live₂ service) (sectionOf file₂ service) :=
    ⟨hnone _, hlives, hfiles, wf_sectionOf h.wfFile₁, wf_sectionOf h.wfFile₂, h.equalities, h.settings⟩
  have hwalk := twins_walk hpairs
  unfold find
  generalize walk (sectionOf live₁ service) (sectionOf file₁ service) none (sectionPath service) = d₁ at hwalk
  generalize walk (sectionOf live₂ service) (sectionOf file₂ service) none (sectionPath service) = d₂ at hwalk
  cases hwalk with
  | some htwin => exact .some htwin
  | none =>
    cases defaults with
    | none => exact .none
    | some d =>
      have hbeside : Beside "" [] [] false (sectionOf live₁ service) (sectionOf file₁ service)
          (sectionOf live₂ service) (sectionOf file₂ service) :=
        ⟨hnone _, hlives, hfiles, wf_sectionOf h.wfLive₁, wf_sectionOf h.wfLive₂, .nil⟩
      have hlacks := twins_lacks (hdefaults d rfl) hbeside
      show Option.Rel Twin (Option.map _ _) (Option.map _ _)
      generalize lacks d (sectionOf live₁ service) (sectionOf file₁ service) "" [] = l₁ at hlacks
      generalize lacks d (sectionOf live₂ service) (sectionOf file₂ service) "" [] = l₂ at hlacks
      cases hlacks with
      | none => exact .none
      | @some found₁ found₂ hfound =>
        obtain ⟨hpath, secret, hsecret, halike⟩ := hfound
        obtain ⟨path, v⟩ := found₁
        obtain ⟨path', w⟩ := found₂
        obtain rfl : path = path' := hpath
        refine .some ⟨rfl, secret, fun hs => ?_, .none, .some halike⟩
        show secretPath (sectionPath service ++ "." ++ path) = true
        rw [secretPath_dot, hsecret hs, Bool.or_true]

end Sections

/-! ### Two daemons with other passwords -/

/-- A configuration with a password, and nothing else. -/
def withPassword (password : String) : Option Cfg := some [("Dhcp4", .obj [("password", .str password)])]

theorem wf_withPassword (password : String) : WF (.obj ((withPassword password).getD [])) := by
  simp [withPassword, WF, WFFields]

/-- What is at a place of a section with a password alone. -/
theorem get_password (password : String) {p : Path} {a : Json}
    (h : get p (.obj [("password", .str password)]) = some a) :
    p = [] ∨ p = [.key "password"] ∧ a = .str password := by
  cases p with
  | nil => exact Or.inl rfl
  | cons s p =>
    right
    cases s with
    | item i => cases h
    | key k =>
      have hk : "password" = k := by
        by_contra hne
        have hnone : lookup k [("password", .str password)] = none := if_neg hne
        change (lookup k _).bind (get p) = some a at h
        rw [hnone] at h
        cases h
      subst hk
      cases p with
      | nil => exact ⟨rfl, (Option.some.inj h).symm⟩
      | cons s p => cases s <;> cases h

end JenKea.Compare
