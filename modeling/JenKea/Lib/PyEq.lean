import JenKea.Lib.Dict
import Mathlib.Data.List.Perm.Subperm

/-!
# Python's equality is an equality

`==` on JSON values is reflexive and symmetric where no dictionary has a key twice. For a pair of dictionaries
it looks from one side only: the other side follows from the number of their keys.
-/

namespace JenKea.Json

theorem pyEqFields_iff {fs gs : Fields} :
    pyEqFields fs gs = true ↔ ∀ f ∈ fs, ∃ w, lookup f.1 gs = some w ∧ pyEq f.2 w = true := by
  induction fs with
  | nil => simp [pyEqFields]
  | cons f fs ih =>
    obtain ⟨k, v⟩ := f
    rw [pyEqFields, Bool.and_eq_true, ih, List.forall_mem_cons]
    refine and_congr ?_ Iff.rfl
    cases lookup k gs with
    | none => simp
    | some w => simp

theorem mem_of_lookup {k : String} {v : Json} {fs : Fields} (h : lookup k fs = some v) : (k, v) ∈ fs := by
  induction fs with
  | nil => cases h
  | cons f fs ih =>
    obtain ⟨j, w⟩ := f
    rw [lookup] at h
    split_ifs at h with hjk
    · rw [← hjk, ← Option.some.inj h]
      exact List.mem_cons_self
    · exact List.mem_cons_of_mem _ (ih h)

theorem mem_keys_of_lookup {k : String} {v : Json} {fs : Fields} (h : lookup k fs = some v) :
    k ∈ fs.map Prod.fst := List.mem_map_of_mem (mem_of_lookup h)

theorem pyEq_arr {xs ys : List Json} : (arr xs).pyEq (arr ys) = pyEqList xs ys := rfl

theorem pyEq_obj {fs gs : Fields} :
    (obj fs).pyEq (obj gs) = (fs.length == gs.length && pyEqFields fs gs) := rfl

theorem pyEq_self (v : Json) (hv : WF v) : pyEq v v = true := by
  induction v with
  | arr xs ih =>
    rw [pyEq_arr]
    have hwf := wfList_iff.mp hv
    clear hv
    induction xs with
    | nil => rfl
    | cons x xs ihxs =>
      have hx := ih x List.mem_cons_self (hwf x List.mem_cons_self)
      have hxs := ihxs (fun x' hx' => ih x' (List.mem_cons_of_mem _ hx'))
        fun x' hx' => hwf x' (List.mem_cons_of_mem _ hx')
      rw [pyEqList, hx, hxs]
      rfl
  | obj fs ih =>
    have hwf := wfFields_iff.mp hv.2
    have hfields : pyEqFields fs fs = true :=
      pyEqFields_iff.mpr fun f hf => ⟨f.2, lookup_of_mem hv.1 hf, ih f hf (hwf f hf)⟩
    rw [pyEq_obj, hfields, beq_self_eq_true]
    rfl
  | null => rfl
  | bool b => exact beq_self_eq_true _
  | int n => exact beq_self_eq_true _
  | float q => exact beq_self_eq_true _
  | str s => exact beq_self_eq_true _

/-- The entries of one dictionary, found in another one with as many: those of the other are found too. -/
theorem pyEqFields_symm {fs gs : Fields} (hfs : (fs.map Prod.fst).Nodup) (hgs : (gs.map Prod.fst).Nodup)
    (hlength : fs.length = gs.length)
    (hsymm : ∀ f ∈ fs, ∀ w, (f.1, w) ∈ gs → pyEq f.2 w = true → pyEq w f.2 = true)
    (h : pyEqFields fs gs = true) : pyEqFields gs fs = true := by
  have hfound := pyEqFields_iff.mp h
  have hsubset : fs.map Prod.fst ⊆ gs.map Prod.fst := by
    intro k hk
    obtain ⟨f, hf, rfl⟩ := List.mem_map.mp hk
    obtain ⟨w, hw, -⟩ := hfound f hf
    exact mem_keys_of_lookup hw
  have hperm : (fs.map Prod.fst).Perm (gs.map Prod.fst) := by
    refine (List.subperm_of_subset hfs hsubset).perm_of_length_le ?_
    rw [List.length_map, List.length_map, hlength]
  refine pyEqFields_iff.mpr fun g hg => ?_
  have hkey : g.1 ∈ fs.map Prod.fst := hperm.mem_iff.mpr (List.mem_map_of_mem hg)
  obtain ⟨f, hf, hfg⟩ := List.mem_map.mp hkey
  obtain ⟨w, hw, heq⟩ := hfound f hf
  have hwg : w = g.2 := by
    have hlookup : lookup g.1 gs = some g.2 := lookup_of_mem hgs hg
    rw [← hfg, hw] at hlookup
    exact Option.some.inj hlookup
  rw [← hfg]
  refine ⟨f.2, lookup_of_mem hfs hf, ?_⟩
  rw [← hwg]
  exact hsymm f hf w (mem_of_lookup hw) heq

theorem pyEq_symm {v w : Json} (hv : WF v) (hw : WF w) (h : pyEq v w = true) : pyEq w v = true := by
  induction v generalizing w with
  | arr xs ih =>
    cases w with
    | arr ys =>
      rw [pyEq_arr] at h ⊢
      have hxs := wfList_iff.mp hv
      have hys := wfList_iff.mp hw
      clear hv hw
      induction xs generalizing ys with
      | nil =>
        cases ys with
        | nil => rfl
        | cons y ys => cases h
      | cons x xs ihxs =>
        cases ys with
        | nil => cases h
        | cons y ys =>
          rw [pyEqList, Bool.and_eq_true] at h ⊢
          constructor
          · exact ih x List.mem_cons_self (hxs x List.mem_cons_self) (hys y List.mem_cons_self) h.1
          · exact ihxs (fun x' hx' => ih x' (List.mem_cons_of_mem _ hx')) ys h.2
              (fun x' hx' => hxs x' (List.mem_cons_of_mem _ hx'))
              fun y' hy' => hys y' (List.mem_cons_of_mem _ hy')
    | _ => cases h
  | obj fs ih =>
    cases w with
    | obj gs =>
      rw [pyEq_obj, Bool.and_eq_true, beq_iff_eq] at h ⊢
      have hfs := wfFields_iff.mp hv.2
      have hgs := wfFields_iff.mp hw.2
      exact ⟨h.1.symm, pyEqFields_symm hv.1 hw.1 h.1
        (fun f hf w hw' heq => ih f hf (hfs f hf) (hgs (f.1, w) hw') heq) h.2⟩
    | _ => cases h
  | null =>
    cases w with
    | null => rfl
    | _ => cases h
  | str s =>
    cases w with
    | str t =>
      have hst : s = t := beq_iff_eq.mp h
      rw [hst]
      exact beq_self_eq_true _
    | _ => cases h
  | bool b | int n | float q =>
    -- a number equals only a number, and the rationals are compared
    have hnumber := beq_iff_eq.mp h
    cases w with
    | bool _ | int _ | float _ => exact beq_iff_eq.mpr hnumber.symm
    | _ => cases hnumber

theorem pyEq_trans {u v w : Json} (huv : pyEq u v = true) (hvw : pyEq v w = true) : pyEq u w = true := by
  induction u generalizing v w with
  | arr xs ih =>
    cases v with
    | arr ys =>
      cases w with
      | arr zs =>
        rw [pyEq_arr] at huv hvw ⊢
        induction xs generalizing ys zs with
        | nil =>
          cases ys with
          | nil => exact hvw
          | cons y ys => cases huv
        | cons x xs ihxs =>
          cases ys with
          | nil => cases huv
          | cons y ys =>
            cases zs with
            | nil => cases hvw
            | cons z zs =>
              rw [pyEqList, Bool.and_eq_true] at huv hvw ⊢
              constructor
              · exact ih x List.mem_cons_self huv.1 hvw.1
              · exact ihxs (fun x' hx' => ih x' (List.mem_cons_of_mem _ hx')) ys huv.2 zs hvw.2
      | _ => cases hvw
    | _ => cases huv
  | obj fs ih =>
    cases v with
    | obj gs =>
      cases w with
      | obj hs =>
        rw [pyEq_obj, Bool.and_eq_true, beq_iff_eq] at huv hvw ⊢
        refine ⟨huv.1.trans hvw.1, pyEqFields_iff.mpr fun f hf => ?_⟩
        obtain ⟨v, hv, hfv⟩ := pyEqFields_iff.mp huv.2 f hf
        obtain ⟨w, hw, hvw'⟩ := pyEqFields_iff.mp hvw.2 (f.1, v) (mem_of_lookup hv)
        exact ⟨w, hw, ih f hf hfv hvw'⟩
      | _ => cases hvw
    | _ => cases huv
  | null =>
    cases v with
    | null => exact hvw
    | _ => cases huv
  | str s =>
    cases v with
    | str t =>
      have hst : s = t := beq_iff_eq.mp huv
      rw [hst]
      exact hvw
    | _ => cases huv
  | bool b | int n | float q =>
    have hnumber := beq_iff_eq.mp huv
    cases v with
    | bool _ | int _ | float _ => exact beq_iff_eq.mpr (hnumber.trans (beq_iff_eq.mp hvw))
    | _ => cases hnumber

end JenKea.Json
