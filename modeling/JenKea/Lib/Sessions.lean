import JenKea.Lib.Map
import Mathlib.Data.List.Chain
import Mathlib.Data.List.Induction

/-!
# Sessions

Elements that come one after the other, each under a key, fall into sessions: an element goes on with the open session of
its key, unless it is apart from the last element there, where that session ends and a new one is opened. Every element
is in one session, and the elements of a session stand in the order in which they came, one key's, none apart from the
one before it.
-/

namespace JenKea

/-- The sessions so far. -/
structure Sessions (κ α : Type) where
  openByKey : Map κ (List α)
  done : List (List α)

namespace Sessions

section Model

variable {κ α : Type} [DecidableEq κ] (key : α → κ) (apart : α → α → Bool)

/-- No session. -/
def start : Sessions κ α := ⟨.empty, []⟩

/-- One element. -/
def add (s : Sessions κ α) (x : α) : Sessions κ α :=
  match s.openByKey.get (key x) with
  | some g =>
    if g.getLast?.any fun y => apart y x then ⟨(s.openByKey.erase (key x)).put (key x) [x], s.done ++ [g]⟩
    else { s with openByKey := s.openByKey.put (key x) (g ++ [x]) }
  | none => { s with openByKey := s.openByKey.put (key x) [x] }

/-- The sessions of elements. -/
def sessions (l : List α) : Sessions κ α := l.foldl (add key apart) start

omit [DecidableEq κ] in
/-- The sessions, those that ended first. -/
def groups (s : Sessions κ α) : List (List α) := s.done ++ s.openByKey.entries.map Prod.snd

omit [DecidableEq κ] in
/-- A session of elements. -/
structure Session (l g : List α) : Prop where
  nonempty : g ≠ []
  sublist : g.Sublist l
  oneKey : ∀ x ∈ g, ∀ y ∈ g, key x = key y
  close : g.IsChain fun x y => apart x y = false

end Model

section Spec

variable {κ α : Type} [DecidableEq κ] {key : α → κ} {apart : α → α → Bool} {l g : List α} {s : Sessions κ α} {x : α}

/-- The entry of a key, between those before and after it. -/
theorem entries_of_get {β : Type} {m : Map κ β} {k : κ} {v : β} (h : m.get k = some v) : ∃ a b,
    m.entries = a ++ (k, v) :: b ∧ (∀ w, (m.put k w).entries = a ++ (k, w) :: b) ∧ (m.erase k).entries = a ++ b := by
  have hentries : ∀ l : List (κ × β), (l.map Prod.fst).Nodup → l.lookup k = some v → ∃ a b,
      l = a ++ (k, v) :: b ∧ (∀ w, Map.putEntries k w l = a ++ (k, w) :: b) ∧ l.filter (fun x => x.1 ≠ k) = a ++ b := by
    intro l
    induction l with
    | nil =>
      intro _ hl
      cases hl
    | cons x l ih =>
      intro hnodup hl
      obtain ⟨hx, hnodup⟩ := List.nodup_cons.mp hnodup
      rw [Map.lookup_cons_ite] at hl
      by_cases hk : k = x.1
      · rw [if_pos hk] at hl
        have hv : x.2 = v := Option.some.inj hl
        have hfilter : l.filter (fun x => x.1 ≠ k) = l := by
          refine List.filter_eq_self.mpr fun y hy => decide_eq_true fun heq => hx ?_
          rw [← hk, ← heq]
          exact List.mem_map_of_mem hy
        refine ⟨[], l, ?_, fun w => ?_, ?_⟩
        · rw [hk, ← hv]
          rfl
        · rw [Map.putEntries, if_pos hk.symm]
          rfl
        · rw [List.filter_cons, if_neg (by simp [hk]), hfilter]
          rfl
      · rw [if_neg hk] at hl
        obtain ⟨a, b, hsplit, hput, herase⟩ := ih hnodup hl
        refine ⟨x :: a, b, ?_, fun w => ?_, ?_⟩
        · rw [hsplit]
          rfl
        · rw [Map.putEntries, if_neg fun h => hk h.symm, hput]
          rfl
        · rw [List.filter_cons, if_pos (by simpa using fun h => hk h.symm), herase]
          rfl
  exact hentries m.entries m.nodup h

/-- What the sessions of elements are. -/
structure Sound (key : α → κ) (apart : α → α → Bool) (l : List α) (s : Sessions κ α) : Prop where
  perm : s.groups.flatten.Perm l
  session : ∀ g ∈ s.groups, Session key apart l g
  ofKey : ∀ x ∈ s.openByKey.entries, ∀ y ∈ x.2, key y = x.1

omit [DecidableEq κ] in
theorem Session.snoc (h : Session key apart l g) : Session key apart (l ++ [x]) g :=
  ⟨h.nonempty, h.sublist.trans (List.sublist_append_left l [x]), h.oneKey, h.close⟩

omit [DecidableEq κ] in
theorem session_singleton : Session key apart (l ++ [x]) [x] :=
  ⟨List.cons_ne_nil x [], List.sublist_append_right l [x], fun a ha b hb => by
    rw [List.mem_singleton.mp ha, List.mem_singleton.mp hb], List.isChain_singleton x⟩

omit [DecidableEq κ] in
theorem Session.go_on (h : Session key apart l g) (hkey : ∀ y ∈ g, key y = key x)
    (hapart : ¬ (g.getLast?.any fun y => apart y x) = true) : Session key apart (l ++ [x]) (g ++ [x]) := by
  refine ⟨List.append_ne_nil_of_right_ne_nil g (List.cons_ne_nil x []), h.sublist.append (List.Sublist.refl [x]),
    fun a ha b hb => ?_, List.isChain_append.mpr ⟨h.close, List.isChain_singleton x, fun a ha b hb => ?_⟩⟩
  · have hof : ∀ y ∈ g ++ [x], key y = key x := by
      intro y hy
      rcases List.mem_append.mp hy with hy | hy
      · exact hkey y hy
      · rw [List.mem_singleton.mp hy]
    rw [hof a ha, hof b hb]
  · obtain rfl : x = b := Option.some.inj hb
    rw [Option.mem_def.mp ha, Option.any_some] at hapart
    exact Bool.eq_false_iff.mpr hapart

/-- The sessions after an element of a key that has none open. -/
theorem Sound.first (h : Sound key apart l s) (hnone : s.openByKey.get (key x) = none) :
    Sound key apart (l ++ [x]) { s with openByKey := s.openByKey.put (key x) [x] } := by
  have hkey : key x ∉ s.openByKey.keys := by
    rw [Map.mem_keys, hnone]
    exact Bool.false_ne_true
  have hentries := Map.entries_put (v := [x]) hkey
  have hgroups : ({ s with openByKey := s.openByKey.put (key x) [x] } : Sessions κ α).groups = s.groups ++ [[x]] := by
    unfold groups
    dsimp only
    rw [hentries, List.map_append, List.append_assoc]
    rfl
  refine ⟨?_, fun g hg => ?_, fun y hy => ?_⟩
  · rw [hgroups, List.flatten_append]
    exact h.perm.append (List.Perm.refl _)
  · rw [hgroups] at hg
    rcases List.mem_append.mp hg with hg | hg
    · exact (h.session g hg).snoc
    · rw [List.mem_singleton.mp hg]
      exact session_singleton
  · dsimp only at hy
    rw [hentries] at hy
    rcases List.mem_append.mp hy with hy | hy
    · exact h.ofKey y hy
    · rw [List.mem_singleton.mp hy]
      intro z hz
      rw [List.mem_singleton.mp hz]

/-- The sessions after an element that goes on with the open one of its key. -/
theorem Sound.next (h : Sound key apart l s) (hget : s.openByKey.get (key x) = some g)
    (hapart : ¬ (g.getLast?.any fun y => apart y x) = true) :
    Sound key apart (l ++ [x]) { s with openByKey := s.openByKey.put (key x) (g ++ [x]) } := by
  obtain ⟨a, b, hsplit, hput, -⟩ := entries_of_get hget
  have hmem : (key x, g) ∈ s.openByKey.entries := Map.mem_entries.mpr hget
  have hgroups : s.groups = s.done ++ a.map Prod.snd ++ g :: b.map Prod.snd := by
    unfold groups
    rw [hsplit, List.map_append, List.append_assoc]
    rfl
  have hgroups' : ({ s with openByKey := s.openByKey.put (key x) (g ++ [x]) } : Sessions κ α).groups =
      s.done ++ a.map Prod.snd ++ (g ++ [x]) :: b.map Prod.snd := by
    unfold groups
    dsimp only
    rw [hput, List.map_append, List.append_assoc]
    rfl
  refine ⟨?_, fun g' hg' => ?_, fun y hy => ?_⟩
  · have hperm := h.perm
    rw [hgroups, List.flatten_append, List.flatten_cons] at hperm
    rw [hgroups', List.flatten_append, List.flatten_cons]
    have hmove : ([x] ++ (b.map Prod.snd).flatten).Perm ((b.map Prod.snd).flatten ++ [x]) := List.perm_append_comm
    rw [List.append_assoc]
    refine ((hmove.append_left g).append_left _).trans ?_
    rw [← List.append_assoc, ← List.append_assoc]
    rw [← List.append_assoc] at hperm
    exact hperm.append_right [x]
  · rw [hgroups'] at hg'
    rcases List.mem_append.mp hg' with hg' | hg'
    · refine (h.session g' ?_).snoc
      rw [hgroups]
      exact List.mem_append_left _ hg'
    · rcases List.mem_cons.mp hg' with rfl | hg'
      · refine (h.session g ?_).go_on (fun y hy => h.ofKey _ hmem y hy) hapart
        rw [hgroups]
        exact List.mem_append_right _ List.mem_cons_self
      · refine (h.session g' ?_).snoc
        rw [hgroups]
        exact List.mem_append_right _ (List.mem_cons_of_mem g hg')
  · dsimp only at hy
    rw [hput] at hy
    have hold : ∀ y ∈ a ++ b, y ∈ s.openByKey.entries := by
      intro y hy
      rw [hsplit]
      rcases List.mem_append.mp hy with hy | hy
      · exact List.mem_append_left _ hy
      · exact List.mem_append_right _ (List.mem_cons_of_mem _ hy)
    rcases List.mem_append.mp hy with hy | hy
    · exact h.ofKey y (hold y (List.mem_append_left b hy))
    · rcases List.mem_cons.mp hy with rfl | hy
      · intro z hz
        rcases List.mem_append.mp hz with hz | hz
        · exact h.ofKey _ hmem z hz
        · rw [List.mem_singleton.mp hz]
      · exact h.ofKey y (hold y (List.mem_append_right a hy))

/-- The sessions after an element that is apart from the open one of its key. -/
theorem Sound.renew (h : Sound key apart l s) (hget : s.openByKey.get (key x) = some g) :
    Sound key apart (l ++ [x]) ⟨(s.openByKey.erase (key x)).put (key x) [x], s.done ++ [g]⟩ := by
  obtain ⟨a, b, hsplit, -, herase⟩ := entries_of_get hget
  have hkey : key x ∉ (s.openByKey.erase (key x)).keys := by
    rw [Map.mem_keys, Map.get_erase, if_pos rfl]
    exact Bool.false_ne_true
  have hentries := Map.entries_put (v := [x]) hkey
  rw [herase] at hentries
  have hgroups : s.groups = s.done ++ (a.map Prod.snd ++ g :: b.map Prod.snd) := by
    unfold groups
    rw [hsplit, List.map_append]
    rfl
  have hgroups' : (⟨(s.openByKey.erase (key x)).put (key x) [x], s.done ++ [g]⟩ : Sessions κ α).groups =
      s.done ++ g :: (a.map Prod.snd ++ b.map Prod.snd) ++ [[x]] := by
    unfold groups
    dsimp only
    rw [hentries, List.map_append, List.map_append]
    simp
  have hmove : s.groups.Perm (s.done ++ g :: (a.map Prod.snd ++ b.map Prod.snd)) := by
    rw [hgroups]
    exact List.perm_middle.append_left s.done
  refine ⟨?_, fun g' hg' => ?_, fun y hy => ?_⟩
  · rw [hgroups', List.flatten_append]
    exact (hmove.flatten.symm.trans h.perm).append (List.Perm.refl _)
  · rw [hgroups'] at hg'
    rcases List.mem_append.mp hg' with hg' | hg'
    · exact (h.session g' (hmove.mem_iff.mpr hg')).snoc
    · rw [List.mem_singleton.mp hg']
      exact session_singleton
  · dsimp only at hy
    rw [hentries] at hy
    rcases List.mem_append.mp hy with hy | hy
    · refine h.ofKey y ?_
      rw [hsplit]
      rcases List.mem_append.mp hy with hy | hy
      · exact List.mem_append_left _ hy
      · exact List.mem_append_right _ (List.mem_cons_of_mem _ hy)
    · rw [List.mem_singleton.mp hy]
      intro z hz
      rw [List.mem_singleton.mp hz]

theorem Sound.add (h : Sound key apart l s) : Sound key apart (l ++ [x]) (s.add key apart x) := by
  unfold Sessions.add
  cases hget : s.openByKey.get (key x) with
  | none => exact h.first hget
  | some g =>
    dsimp only
    split_ifs with hapart
    · exact h.renew hget
    · exact h.next hget hapart

/-- The sessions of elements are sound. -/
theorem sound_sessions : Sound key apart l (sessions key apart l) := by
  induction l using List.reverseRecOn with
  | nil => exact ⟨List.Perm.refl _, fun g hg => (by cases hg), fun y hy => (by cases hy)⟩
  | append_singleton l x ih =>
    unfold sessions at ih ⊢
    rw [List.foldl_append]
    exact ih.add

end Spec

end Sessions

end JenKea
