import JenKea.Compare.DifferenceText
import JenKea.Lib.JsonPath
import JenKea.Lib.PyEq

/-!
# Configurations that differ in secrets alone

Two values are alike when they have one shape and differ, if at all, in scalars below the key of a secret, where
they are of one kind. What is not below such a key is one value.
-/

namespace JenKea.Compare

open Json Api

/-! ## Alike -/

/-- A number to JSON. -/
def isNumber : Json → Bool
  | .int _ | .float _ => true
  | _ => false

/-- Two scalars of one kind. -/
def sameKind : Json → Json → Bool
  | .null, .null => true
  | .bool _, .bool _ => true
  | .str _, .str _ => true
  | v, w => isNumber v && isNumber w

/-- Two scalars: of one kind where they are secret, and else one. -/
def alikeScalar (secret : Bool) (v w : Json) : Bool := if secret then sameKind v w else decide (v = w)

mutual

/-- Two values of one shape, whose scalars differ where they are secret, and nowhere else. -/
def alike (secret : Bool) : Json → Json → Bool
  | .arr xs, w => match w with
    | .arr ys => alikeList secret xs ys
    | _ => false
  | .obj fs, w => match w with
    | .obj gs => alikeFields secret fs gs
    | _ => false
  | .null, w => alikeScalar secret .null w
  | .bool b, w => alikeScalar secret (.bool b) w
  | .int n, w => alikeScalar secret (.int n) w
  | .float q, w => alikeScalar secret (.float q) w
  | .str s, w => alikeScalar secret (.str s) w

/-- `alike` of the elements of two lists. -/
def alikeList (secret : Bool) : List Json → List Json → Bool
  | [], ys => ys.isEmpty
  | x :: xs, ys => match ys with
    | y :: ys => alike secret x y && alikeList secret xs ys
    | [] => false

/-- `alike` of the entries of two dictionaries: the keys are the same, in one order, and below the key of a
secret everything is secret. -/
def alikeFields (secret : Bool) : Fields → Fields → Bool
  | [], gs => gs.isEmpty
  | (k, v) :: fs, gs => match gs with
    | (j, w) :: gs => k == j && alike (secret || secretPath k) v w && alikeFields secret fs gs
    | [] => false

end

section Alike

variable {secret secret' : Bool} {v w : Json} {xs ys : List Json} {fs gs : Fields} {k : String}

theorem alikeScalar_container (h : isContainer (some v) = false) (hw : alikeScalar secret v w = true) :
    isContainer (some w) = false := by
  unfold alikeScalar at hw
  split_ifs at hw
  · cases v <;> cases w <;> first | rfl | cases hw | cases h
  · rw [← of_decide_eq_true hw]
    exact h

theorem alike_of_scalar (h : isContainer (some v) = false) : alike secret v w = alikeScalar secret v w := by
  cases v <;> first | rfl | cases h

/-- A container stays one, and a scalar too. -/
theorem alike_isContainer (h : alike secret v w = true) : isContainer (some w) = isContainer (some v) := by
  cases v with
  | arr xs => cases w <;> first | rfl | cases h
  | obj fs => cases w <;> first | rfl | cases h
  | _ => exact alikeScalar_container rfl h

theorem alike_arr_left (h : alike secret (.arr xs) w = true) : ∃ ys, w = .arr ys ∧ alikeList secret xs ys = true := by
  cases w with
  | arr ys => exact ⟨ys, rfl, h⟩
  | _ => cases h

theorem alike_obj_left (h : alike secret (.obj fs) w = true) : ∃ gs, w = .obj gs ∧ alikeFields secret fs gs = true := by
  cases w with
  | obj gs => exact ⟨gs, rfl, h⟩
  | _ => cases h

theorem alikeList_cons_left {x : Json} (h : alikeList secret (x :: xs) ys = true) :
    ∃ y ys', ys = y :: ys' ∧ alike secret x y = true ∧ alikeList secret xs ys' = true := by
  cases ys with
  | nil => cases h
  | cons y ys =>
    obtain ⟨hx, hxs⟩ := Bool.and_eq_true_iff.mp h
    exact ⟨y, ys, rfl, hx, hxs⟩

theorem alikeFields_cons_left (h : alikeFields secret ((k, v) :: fs) gs = true) :
    ∃ w gs', gs = (k, w) :: gs' ∧ alike (secret || secretPath k) v w = true ∧ alikeFields secret fs gs' = true := by
  cases gs with
  | nil => cases h
  | cons g gs =>
    obtain ⟨j, w⟩ := g
    obtain ⟨hhead, hfs⟩ := Bool.and_eq_true_iff.mp h
    obtain ⟨hk, hv⟩ := Bool.and_eq_true_iff.mp hhead
    obtain rfl : k = j := eq_of_beq hk
    exact ⟨w, gs, rfl, hv, hfs⟩

theorem alikeList_length (h : alikeList secret xs ys = true) : xs.length = ys.length := by
  induction xs generalizing ys with
  | nil => rw [List.isEmpty_iff.mp h]
  | cons x xs ih =>
    obtain ⟨y, ys, rfl, -, hxs⟩ := alikeList_cons_left h
    rw [List.length_cons, List.length_cons, ih hxs]

theorem alikeFields_length (h : alikeFields secret fs gs = true) : fs.length = gs.length := by
  induction fs generalizing gs with
  | nil => rw [List.isEmpty_iff.mp h]
  | cons f fs ih =>
    obtain ⟨w, gs, rfl, -, hfs⟩ := alikeFields_cons_left h
    rw [List.length_cons, List.length_cons, ih hfs]

theorem alikeFields_lookup_none (h : alikeFields secret fs gs = true) (hk : lookup k fs = none) :
    lookup k gs = none := by
  induction fs generalizing gs with
  | nil => rw [List.isEmpty_iff.mp h, lookup_nil]
  | cons f fs ih =>
    obtain ⟨j, v⟩ := f
    obtain ⟨w, gs, rfl, -, hfs⟩ := alikeFields_cons_left h
    rw [lookup_cons] at hk ⊢
    split_ifs at hk ⊢ with hj
    exact ih hfs hk

theorem alikeFields_lookup_some (h : alikeFields secret fs gs = true) (hk : lookup k fs = some v) :
    ∃ w, lookup k gs = some w ∧ alike (secret || secretPath k) v w = true := by
  induction fs generalizing gs with
  | nil => cases hk
  | cons f fs ih =>
    obtain ⟨j, u⟩ := f
    obtain ⟨w, gs, rfl, hu, hfs⟩ := alikeFields_cons_left h
    rw [lookup_cons] at hk
    simp only [lookup_cons]
    split_ifs at hk ⊢ with hj
    · obtain rfl := Option.some.inj hk
      subst hj
      exact ⟨w, rfl, hu⟩
    · exact ih hfs hk

theorem sameKind_self (h : isContainer (some v) = false) : sameKind v v = true := by
  cases v <;> first | rfl | cases h

theorem alikeScalar_weaken (hv : isContainer (some v) = false) (h : alikeScalar secret v w = true)
    (hle : secret = true → secret' = true) : alikeScalar secret' v w = true := by
  cases secret with
  | true => rwa [hle rfl]
  | false =>
    obtain rfl : v = w := of_decide_eq_true h
    cases secret' with
    | true => exact sameKind_self hv
    | false => exact h

/-- More may be secret. -/
theorem alike_weaken (h : alike secret v w = true) (hle : secret = true → secret' = true) :
    alike secret' v w = true := by
  induction v generalizing secret secret' w with
  | arr xs ih =>
    obtain ⟨ys, rfl, hxs⟩ := alike_arr_left h
    show alikeList secret' xs ys = true
    induction xs generalizing ys with
    | nil => exact hxs
    | cons x xs ihxs =>
      obtain ⟨y, ys, rfl, hx, hxs⟩ := alikeList_cons_left hxs
      refine Bool.and_eq_true_iff.mpr ⟨ih x List.mem_cons_self hx hle, ?_⟩
      exact ihxs (fun x' hx' => ih x' (List.mem_cons_of_mem _ hx')) ys hxs hxs
  | obj fs ih =>
    obtain ⟨gs, rfl, hfs⟩ := alike_obj_left h
    show alikeFields secret' fs gs = true
    induction fs generalizing gs with
    | nil => exact hfs
    | cons f fs ihfs =>
      obtain ⟨w, gs, rfl, hf, hfs⟩ := alikeFields_cons_left hfs
      have hor : (secret || secretPath f.1) = true → (secret' || secretPath f.1) = true := by
        intro h
        rcases Bool.or_eq_true_iff.mp h with h | h
        · rw [hle h, Bool.true_or]
        · rw [h, Bool.or_true]
      refine Bool.and_eq_true_iff.mpr ⟨Bool.and_eq_true_iff.mpr ⟨beq_self_eq_true _, ?_⟩, ?_⟩
      · exact ih f List.mem_cons_self hf hor
      · exact ihfs (fun f' hf' => ih f' (List.mem_cons_of_mem _ hf')) gs hfs hfs
  | null => exact alikeScalar_weaken rfl h hle
  | bool b => exact alikeScalar_weaken rfl h hle
  | int n => exact alikeScalar_weaken rfl h hle
  | float q => exact alikeScalar_weaken rfl h hle
  | str s => exact alikeScalar_weaken rfl h hle

/-- A scalar that is not secret is one value. -/
theorem eq_of_alike_scalar (hv : isContainer (some v) = false) (h : alike false v w = true) : v = w := by
  rw [alike_of_scalar hv] at h
  exact of_decide_eq_true h

theorem alikeScalar_symm (hv : isContainer (some v) = false) (h : alikeScalar secret v w = true) :
    alike secret w v = true := by
  have hw : isContainer (some w) = false := alikeScalar_container hv h
  rw [alike_of_scalar hw]
  cases secret with
  | false =>
    obtain rfl : v = w := of_decide_eq_true h
    exact h
  | true => cases v <;> cases w <;> first | rfl | cases h

theorem alike_symm (h : alike secret v w = true) : alike secret w v = true := by
  induction v generalizing secret w with
  | arr xs ih =>
    obtain ⟨ys, rfl, hxs⟩ := alike_arr_left h
    show alikeList secret ys xs = true
    clear h
    induction xs generalizing ys with
    | nil =>
      rw [List.isEmpty_iff.mp hxs]
      rfl
    | cons x xs ihxs =>
      obtain ⟨y, ys, rfl, hx, hrest⟩ := alikeList_cons_left hxs
      refine Bool.and_eq_true_iff.mpr ⟨ih x List.mem_cons_self hx, ?_⟩
      exact ihxs (fun x' hx' => ih x' (List.mem_cons_of_mem _ hx')) ys hrest
  | obj fs ih =>
    obtain ⟨gs, rfl, hfs⟩ := alike_obj_left h
    show alikeFields secret gs fs = true
    clear h
    induction fs generalizing gs with
    | nil =>
      rw [List.isEmpty_iff.mp hfs]
      rfl
    | cons f fs ihfs =>
      obtain ⟨w, gs, rfl, hf, hrest⟩ := alikeFields_cons_left hfs
      refine Bool.and_eq_true_iff.mpr ⟨Bool.and_eq_true_iff.mpr ⟨beq_self_eq_true _, ?_⟩, ?_⟩
      · exact ih f List.mem_cons_self hf
      · exact ihfs (fun f' hf' => ih f' (List.mem_cons_of_mem _ hf')) gs hrest
  | null => exact alikeScalar_symm rfl h
  | bool b => exact alikeScalar_symm rfl h
  | int n => exact alikeScalar_symm rfl h
  | float q => exact alikeScalar_symm rfl h
  | str s => exact alikeScalar_symm rfl h

end Alike

end JenKea.Compare
