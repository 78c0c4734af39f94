import JenKea.Edit.Subnets

/-!
# Edits of subnets, one after the other

Over any run of edits the ids of a section stay distinct, and each edit does what it says: an edit that was not
made changes nothing, a patch replaces one subnet in its place, a deletion takes one out, and a move takes one
out of its container and puts the same one at the end of another.
-/

namespace JenKea.Edit

open Json

/-! ## A patch of one subnet -/

/-- A part of a patch keeps the id, and where it reports no difference there is none. -/
def Step.Sound (step : Step) : Prop :=
  ∀ s s' changed, step s = .ok (s', changed) → valueOf "id" s' = valueOf "id" s ∧ (changed = false → s' = s)

section Step

variable {key : String} {v : Json}

theorem valueOf_set_ne {k j : String} {w : Json} {fs : Fields} (h : j ≠ k) :
    valueOf k (set j w fs) = valueOf k fs := by
  unfold valueOf
  rw [lookup_set_ne h]

theorem sound_same : Step.Sound fun s => .ok (s, false) := by
  intro s s' changed h
  obtain ⟨rfl, -⟩ := Prod.mk.inj (Except.ok.inj h)
  exact ⟨rfl, fun _ => rfl⟩

theorem sound_setIfDifferent (hkey : key ≠ "id") : (setIfDifferent key v).Sound := by
  intro s s' changed h
  unfold setIfDifferent at h
  split_ifs at h with hsame
  · exact sound_same s s' changed h
  · obtain ⟨rfl, rfl⟩ := Prod.mk.inj (Except.ok.inj h)
    exact ⟨valueOf_set_ne hkey, fun h => by cases h⟩

theorem sound_setNumber {text : String} (hkey : key ≠ "id") : (setNumber key text).Sound := by
  intro s s' changed h
  unfold setNumber at h
  split_ifs at h with hempty
  · exact sound_same s s' changed h
  · cases hint : Text.toInt text with
    | none =>
      rw [hint] at h
      cases h
    | some n =>
      rw [hint] at h
      exact sound_setIfDifferent hkey s s' changed h

theorem sound_setPools {newPool : String} {extraPools : List String} :
    (setPools newPool extraPools).Sound := by
  intro s s' changed h
  unfold setPools at h
  split_ifs at h with hempty
  · exact sound_same s s' changed h
  · exact sound_setIfDifferent (by decide) s s' changed h

/-- A value that equals a text is that text. -/
theorem eq_str_of_pyEq {text : String} (h : v.pyEq (.str text) = true) : v = .str text := by
  cases v with
  | str s =>
    have hs : s = text := beq_iff_eq.mp h
    rw [hs]
  | bool b => cases beq_iff_eq.mp h
  | int n => cases beq_iff_eq.mp h
  | float q => cases beq_iff_eq.mp h
  | _ => cases h

theorem setData_same {p : Json → Bool} {data : String} {opts : List Json}
    (h : (setData p data opts).2 = false) : (setData p data opts).1 = opts := by
  induction opts with
  | nil => rfl
  | cons o opts ih =>
    unfold setData at h ⊢
    split_ifs at h ⊢ with hp
    · cases o with
      | obj fields =>
        have hdata := eq_str_of_pyEq (Bool.not_eq_false' .. |>.mp h)
        have hlookup : lookup "data" fields = some (.str data) := by
          unfold valueOf at hdata
          cases hfound : lookup "data" fields with
          | none =>
            rw [hfound] at hdata
            cases hdata
          | some w =>
            rw [hfound] at hdata
            exact congrArg some hdata
        show Json.obj (set "data" (.str data) fields) :: opts = _
        rw [set_lookup hlookup]
      | _ => rfl
    · show o :: (setData p data opts).1 = o :: opts
      rw [ih h]

theorem upsertOption_same {name space data : String} {code : ℤ} {opts : List Json}
    (h : (upsertOption name code space data opts).2 = false) :
    (upsertOption name code space data opts).1 = opts := by
  unfold upsertOption at h ⊢
  split_ifs at h ⊢ with hcode hname
  · exact setData_same h
  · exact setData_same h

theorem upsertAll_same {options : List OptionField} {opts : List Json}
    (h : (upsertAll options opts).2 = false) : (upsertAll options opts).1 = opts := by
  induction options generalizing opts with
  | nil => rfl
  | cons o os ih =>
    unfold upsertAll at h ⊢
    split_ifs at h ⊢ with hempty
    · exact ih h
    · dsimp only at h ⊢
      rw [Bool.or_eq_false_iff] at h
      rw [ih h.2, upsertOption_same h.1]

/-- What is filled in is added to a subnet without options. -/
theorem upsertAll_nil {options : List OptionField} (h : ¬ (options.all fun o => o.data = "") = true) :
    (upsertAll options []).2 = true := by
  induction options with
  | nil => exact absurd rfl h
  | cons o os ih =>
    unfold upsertAll
    split_ifs with hempty
    · refine ih fun hall => h ?_
      rw [List.all_cons, hall, Bool.and_true, decide_eq_true hempty]
    · rfl

theorem sound_setOptions {options : List OptionField} : (setOptions options).Sound := by
  intro s s' changed h
  unfold setOptions at h
  split_ifs at h with hempty
  · exact sound_same s s' changed h
  · cases hlookup : lookup "option-data" s with
    | none =>
      rw [hlookup] at h
      obtain ⟨rfl, rfl⟩ := Prod.mk.inj (Except.ok.inj h)
      refine ⟨valueOf_set_ne (by decide), fun hsame => ?_⟩
      rw [upsertAll_nil hempty] at hsame
      cases hsame
    | some v =>
      rw [hlookup] at h
      cases v with
      | arr opts =>
        obtain ⟨rfl, rfl⟩ := Prod.mk.inj (Except.ok.inj h)
        refine ⟨valueOf_set_ne (by decide), fun hsame => ?_⟩
        rw [upsertAll_same hsame, set_lookup hlookup]
      | _ => cases h

theorem sound_steps {parts : List Step} (hparts : ∀ step ∈ parts, Step.Sound step) : (steps parts).Sound := by
  induction parts with
  | nil => exact sound_same
  | cons step parts ih =>
    intro s s' changed h
    obtain ⟨⟨s₁, changed₁⟩, hfirst, h⟩ := Except.bind_eq_ok.mp h
    obtain ⟨⟨s₂, changed₂⟩, hrest, h⟩ := Except.bind_eq_ok.mp h
    obtain ⟨rfl, rfl⟩ := Prod.mk.inj (Except.ok.inj h)
    obtain ⟨hid₁, hsame₁⟩ := hparts step List.mem_cons_self s s₁ changed₁ hfirst
    obtain ⟨hid₂, hsame₂⟩ :=
      ih (fun step' hstep' => hparts step' (List.mem_cons_of_mem _ hstep')) s₁ s₂ changed₂ hrest
    refine ⟨hid₂.trans hid₁, fun hsame => ?_⟩
    rw [Bool.or_eq_false_iff] at hsame
    rw [hsame₂ hsame.2, hsame₁ hsame.1]

theorem Form4.sound (form : Form4) : form.step.Sound := by
  refine sound_steps ?_
  simp only [List.forall_mem_cons, List.not_mem_nil, false_imp_iff, implies_true, and_true]
  exact ⟨sound_setPools, sound_setNumber (by decide), sound_setNumber (by decide),
    sound_setNumber (by decide), sound_setOptions⟩

theorem Form6.sound (form : Form6) : form.step.Sound := by
  refine sound_steps ?_
  simp only [List.forall_mem_cons, List.not_mem_nil, false_imp_iff, implies_true, and_true]
  exact ⟨sound_setPools, sound_setNumber (by decide), sound_setNumber (by decide),
    sound_setNumber (by decide), sound_setNumber (by decide), sound_setOptions⟩

end Step

/-! ## One container -/

/-- The containers of a section: its top, and its shared networks. -/
def Section.containers (sec : Section) : List (List Fields) := sec.top :: sec.nets.map Network.members

/-- What a section has besides its subnets. -/
def Section.frame (sec : Section) : Fields × List Fields := (sec.fields, sec.nets.map Network.fields)

/-- A subnet was taken out of its container. -/
def Removed (s : Fields) (cs cs' : List (List Fields)) : Prop :=
  ∃ left before after right, cs = left ++ (before ++ s :: after) :: right ∧
    cs' = left ++ (before ++ after) :: right

/-- A subnet was put at the end of a container. -/
def Appended (s : Fields) (cs cs' : List (List Fields)) : Prop :=
  ∃ left subs right, cs = left ++ subs :: right ∧ cs' = left ++ (subs ++ [s]) :: right

/-- A subnet stands where another one stood. -/
def Replaced (s s' : Fields) (cs cs' : List (List Fields)) : Prop :=
  ∃ left before after right, cs = left ++ (before ++ s :: after) :: right ∧
    cs' = left ++ (before ++ s' :: after) :: right

section Containers

variable {sec : Section} {p : Fields → Bool} {g : List Fields → List Fields}

theorem iterSubnets_eq (sec : Section) : sec.iterSubnets = sec.containers.flatten := by
  unfold Section.iterSubnets Section.containers
  rw [List.flatten_cons, List.flatMap_def]

/-- The container with the first subnet of the property, in the shared networks. -/
theorem exists_overFirst {ns : List Network} (h : (ns.flatMap Network.members).any p = true) :
    ∃ left subs right, ns.map Network.members = left ++ subs :: right ∧ subs.any p = true ∧
      (∀ c ∈ left, c.any p = false) ∧
      (overFirst p g ns).map Network.members = left ++ g subs :: right ∧
      (overFirst p g ns).map Network.fields = ns.map Network.fields := by
  induction ns with
  | nil => cases h
  | cons n ns ih =>
    unfold overFirst
    by_cases hn : n.members.any p = true
    · rw [if_pos hn]
      exact ⟨[], n.members, ns.map Network.members, rfl, hn, fun c hc => absurd hc List.not_mem_nil, rfl, rfl⟩
    · rw [if_neg hn]
      have hrest : (ns.flatMap Network.members).any p = true := by
        rw [List.flatMap_cons, List.any_append, Bool.or_eq_true] at h
        exact h.resolve_left hn
      obtain ⟨left, subs, right, heq, hsubs, hleft, hover, hfields⟩ := ih hrest
      refine ⟨n.members :: left, subs, right, ?_, hsubs, ?_, ?_, ?_⟩
      · rw [List.map_cons, heq, List.cons_append]
      · exact List.forall_mem_cons.mpr ⟨Bool.eq_false_iff.mpr hn, hleft⟩
      · rw [List.map_cons, hover, List.cons_append]
      · rw [List.map_cons, List.map_cons, hfields]

theorem Section.exists_overFirst (g : List Fields → List Fields) (h : sec.iterSubnets.any p = true) :
    ∃ left subs right, sec.containers = left ++ subs :: right ∧ subs.any p = true ∧
      (∀ c ∈ left, c.any p = false) ∧ (sec.overFirst p g).containers = left ++ g subs :: right ∧
      (sec.overFirst p g).frame = sec.frame := by
  unfold Section.overFirst
  by_cases htop : sec.top.any p = true
  · rw [if_pos htop]
    exact ⟨[], sec.top, sec.nets.map Network.members, rfl, htop, fun c hc => absurd hc List.not_mem_nil, rfl, rfl⟩
  · rw [if_neg htop]
    have hnets : (sec.nets.flatMap Network.members).any p = true := by
      unfold Section.iterSubnets at h
      rw [List.any_append, Bool.or_eq_true] at h
      exact h.resolve_left htop
    obtain ⟨left, subs, right, heq, hsubs, hleft, hover, hfields⟩ := Edit.exists_overFirst (g := g) hnets
    have hnets' : (sec.networks.map (Edit.overFirst p g)).getD [] = Edit.overFirst p g sec.nets := by
      unfold Section.nets
      cases sec.networks <;> rfl
    refine ⟨sec.top :: left, subs, right, ?_, hsubs, ?_, ?_, ?_⟩
    · show sec.top :: sec.nets.map Network.members = _
      rw [heq, List.cons_append]
    · exact List.forall_mem_cons.mpr ⟨Bool.eq_false_iff.mpr htop, hleft⟩
    · show sec.top :: ((sec.networks.map (Edit.overFirst p g)).getD []).map Network.members = _
      rw [hnets', hover, List.cons_append]
    · show (sec.fields, ((sec.networks.map (Edit.overFirst p g)).getD []).map Network.fields) = _
      rw [hnets', hfields]
      rfl

/-- A list around its first element with a property. -/
theorem exists_first {α : Type} {q : α → Bool} {l : List α} (h : l.any q = true) :
    ∃ before a after, l = before ++ a :: after ∧ q a = true ∧ (∀ b ∈ before, q b = false) ∧
      l.find? q = some a ∧ l.eraseP q = before ++ after ∧
      ∀ a', l.set (l.findIdx q) a' = before ++ a' :: after := by
  induction l with
  | nil => cases h
  | cons x l ih =>
    by_cases hx : q x = true
    · refine ⟨[], x, l, rfl, hx, fun b hb => absurd hb List.not_mem_nil, ?_, ?_, ?_⟩
      · rw [List.find?_cons, hx]
      · rw [List.eraseP_cons, hx]
        rfl
      · intro a'
        rw [List.findIdx_cons, hx]
        rfl
    · have hx' : q x = false := Bool.eq_false_iff.mpr hx
      rw [List.any_cons, hx', Bool.false_or] at h
      obtain ⟨before, a, after, rfl, ha, hbefore, hfind, herase, hset⟩ := ih h
      refine ⟨x :: before, a, after, rfl, ha, List.forall_mem_cons.mpr ⟨hx', hbefore⟩, ?_, ?_, ?_⟩
      · rw [List.find?_cons, hx']
        exact hfind
      · rw [List.eraseP_cons, hx']
        exact congrArg (x :: ·) herase
      · intro a'
        rw [List.findIdx_cons, hx']
        exact congrArg (x :: ·) (hset a')

/-- The first container with a property is one. -/
theorem first_unique {α : Type} {q : α → Bool} {left left' right right' : List α} {a a' : α}
    (heq : left ++ a :: right = left' ++ a' :: right') (hleft : ∀ b ∈ left, q b = false)
    (hleft' : ∀ b ∈ left', q b = false) (ha : q a = true) (ha' : q a' = true) :
    left = left' ∧ a = a' ∧ right = right' := by
  induction left generalizing left' with
  | nil =>
    cases left' with
    | nil =>
      obtain ⟨rfl, rfl⟩ := List.cons.inj heq
      exact ⟨rfl, rfl, rfl⟩
    | cons b left' =>
      obtain ⟨rfl, -⟩ := List.cons.inj heq
      rw [hleft' a List.mem_cons_self] at ha
      cases ha
  | cons b left ih =>
    cases left' with
    | nil =>
      obtain ⟨rfl, -⟩ := List.cons.inj heq
      rw [hleft b List.mem_cons_self] at ha'
      cases ha'
    | cons b' left' =>
      obtain ⟨rfl, htail⟩ := List.cons.inj heq
      obtain ⟨rfl, rfl, rfl⟩ := ih htail (fun c hc => hleft c (List.mem_cons_of_mem _ hc))
        fun c hc => hleft' c (List.mem_cons_of_mem _ hc)
      exact ⟨rfl, rfl, rfl⟩

/-- The first subnet with a property: where it stands, and what the changes of its container come to. -/
structure Section.First (sec : Section) (p : Fields → Bool) (left : List (List Fields))
    (before : List Fields) (s : Fields) (after : List Fields) (right : List (List Fields)) : Prop where
  containers : sec.containers = left ++ (before ++ s :: after) :: right
  found : p s = true
  first : sec.iterSubnets.find? p = some s
  frame : ∀ g, (sec.overFirst p g).frame = sec.frame
  replaced : ∀ s', (sec.overFirst p fun subs => subs.set (subs.findIdx p) s').containers =
    left ++ (before ++ s' :: after) :: right
  erased : (sec.overFirst p fun subs => subs.eraseP p).containers = left ++ (before ++ after) :: right
  filtered : (sec.overFirst p fun subs => subs.filter fun s => !p s).containers =
    left ++ (before ++ after.filter fun s => !p s) :: right

theorem Section.exists_first (h : sec.iterSubnets.any p = true) :
    ∃ left before s after right, sec.First p left before s after right := by
  obtain ⟨left, subs, right, hcontainers, hsubs, hleft, -, -⟩ := sec.exists_overFirst id h
  obtain ⟨before, s, after, rfl, hs, hbefore, hfind, herase, hset⟩ := Edit.exists_first hsubs
  -- every change of the container goes to the same one
  have hover : ∀ g : List Fields → List Fields,
      (sec.overFirst p g).containers = left ++ g (before ++ s :: after) :: right ∧
        (sec.overFirst p g).frame = sec.frame := by
    intro g
    obtain ⟨left', subs', right', hcontainers', hsubs', hleft', hover', hframe'⟩ := sec.exists_overFirst g h
    have hsame := first_unique (hcontainers.symm.trans hcontainers') hleft hleft' hsubs hsubs'
    obtain ⟨rfl, rfl, rfl⟩ := hsame
    exact ⟨hover', hframe'⟩
  refine ⟨left, before, s, after, right, hcontainers, hs, ?_, fun g => (hover g).2, fun s' => ?_, ?_, ?_⟩
  · rw [iterSubnets_eq, hcontainers, List.flatten_append, List.find?_append]
    have hnone : left.flatten.find? p = none := by
      rw [List.find?_eq_none]
      intro t ht
      obtain ⟨c, hc, htc⟩ := List.mem_flatten.mp ht
      have hfalse := hleft c hc
      rw [List.any_eq_false] at hfalse
      exact hfalse t htc
    rw [hnone, Option.none_or, List.flatten_cons, List.find?_append, hfind, Option.some_or]
  · rw [(hover _).1, hset s']
  · rw [(hover _).1, herase]
  · rw [(hover _).1, List.filter_append, List.filter_cons, hs]
    have hkept : before.filter (fun s => !p s) = before := by
      rw [List.filter_eq_self]
      intro b hb
      rw [hbefore b hb]
      rfl
    rw [hkept]
    rfl

end Containers

/-! ## Ids -/

/-- Neither value equals the other one. -/
def Distinct (v w : Json) : Prop := v.pyEq w = false ∧ w.pyEq v = false

/-- The ids of some subnets are pairwise distinct, and none has a key twice. -/
structure IdsUnique (l : List Fields) : Prop where
  wf : ∀ s ∈ l, (valueOf "id" s).WF
  distinct : l.Pairwise fun s t => Distinct (valueOf "id" s) (valueOf "id" t)

section IdsUnique

variable {l l' : List Fields} {s s' : Fields} {id : Json}

theorem IdsUnique.perm (h : IdsUnique l) (hperm : l.Perm l') : IdsUnique l' where
  wf t ht := h.wf t (hperm.mem_iff.mpr ht)
  distinct := (hperm.pairwise_iff fun hst => ⟨hst.2, hst.1⟩).mp h.distinct

theorem IdsUnique.tail (h : IdsUnique (s :: l)) : IdsUnique l where
  wf t ht := h.wf t (List.mem_cons_of_mem _ ht)
  distinct := (List.pairwise_cons.mp h.distinct).2

/-- A subnet with an id that is not there yet. -/
theorem IdsUnique.cons (h : IdsUnique l) (hs : (valueOf "id" s).WF)
    (hnew : ∀ t ∈ l, hasId (valueOf "id" s) t = false) : IdsUnique (s :: l) where
  wf := List.forall_mem_cons.mpr ⟨hs, h.wf⟩
  distinct := by
    refine List.pairwise_cons.mpr ⟨fun t ht => ⟨?_, hnew t ht⟩, h.distinct⟩
    rw [Bool.eq_false_iff]
    intro heq
    have hback : hasId (valueOf "id" s) t = true := pyEq_symm hs (h.wf t ht) heq
    rw [hnew t ht] at hback
    cases hback

/-- A subnet in the place of one with the same id. -/
theorem IdsUnique.replace (h : IdsUnique (s :: l)) (hid : valueOf "id" s' = valueOf "id" s) :
    IdsUnique (s' :: l) where
  wf := List.forall_mem_cons.mpr ⟨hid ▸ h.wf s List.mem_cons_self, h.tail.wf⟩
  distinct := by
    refine List.pairwise_cons.mpr ⟨?_, h.tail.distinct⟩
    rw [hid]
    exact (List.pairwise_cons.mp h.distinct).1

/-- No other subnet has the id of one. -/
theorem IdsUnique.hasId_eq_false (h : IdsUnique (s :: l)) (hid : id.WF) (hs : hasId id s = true) :
    ∀ t ∈ l, hasId id t = false := by
  intro t ht
  rw [Bool.eq_false_iff]
  intro hthas
  have hback : id.pyEq (valueOf "id" t) = true := pyEq_symm (h.tail.wf t ht) hid hthas
  have hsame : (valueOf "id" s).pyEq (valueOf "id" t) = true := pyEq_trans hs hback
  have hdistinct := ((List.pairwise_cons.mp h.distinct).1 t ht).1
  rw [hsame] at hdistinct
  cases hdistinct

end IdsUnique

section Moves

variable {s s' : Fields} {cs cs' : List (List Fields)}

theorem Removed.perm (h : Removed s cs cs') : cs.flatten.Perm (s :: cs'.flatten) := by
  obtain ⟨left, before, after, right, rfl, rfl⟩ := h
  simp only [List.flatten_append, List.flatten_cons, List.append_assoc, List.cons_append]
  rw [← List.append_assoc, ← List.append_assoc left.flatten before]
  exact List.perm_middle

theorem Appended.perm (h : Appended s cs cs') : cs'.flatten.Perm (s :: cs.flatten) := by
  obtain ⟨left, subs, right, rfl, rfl⟩ := h
  simp only [List.flatten_append, List.flatten_cons, List.append_assoc, List.cons_append, List.nil_append]
  rw [← List.append_assoc, ← List.append_assoc left.flatten subs]
  exact List.perm_middle

theorem Replaced.perm (h : Replaced s s' cs cs') :
    ∃ rest, cs.flatten.Perm (s :: rest) ∧ cs'.flatten.Perm (s' :: rest) := by
  obtain ⟨left, before, after, right, rfl, rfl⟩ := h
  refine ⟨(left.flatten ++ before) ++ (after ++ right.flatten), ?_, ?_⟩
  · simp only [List.flatten_append, List.flatten_cons, List.append_assoc, List.cons_append]
    rw [← List.append_assoc, ← List.append_assoc left.flatten before]
    exact List.perm_middle
  · simp only [List.flatten_append, List.flatten_cons, List.append_assoc, List.cons_append]
    rw [← List.append_assoc, ← List.append_assoc left.flatten before]
    exact List.perm_middle

end Moves

/-! ## What each edit does -/

/-- Nothing but the section of DHCPv4 differs. -/
def OnlyDhcp4 (cfg cfg' : Config) : Prop := cfg'.rest = cfg.rest ∧ cfg'.dhcp6 = cfg.dhcp6

/-- The subnet with the id gave way, in its place, to one with the same id. -/
def Patched (id : Json) (sec sec' : Section) : Prop :=
  sec'.frame = sec.frame ∧ ∃ s s', hasId id s = true ∧ valueOf "id" s' = valueOf "id" s ∧
    Replaced s s' sec.containers sec'.containers

/-- What an edit does that is made. -/
def SubnetEdit.Did (cfg cfg' : Config) : SubnetEdit → Prop
  | .patch4 id _ => OnlyDhcp4 cfg cfg' ∧ Patched id cfg.dhcp4 cfg'.dhcp4
  | .patch6 id _ => cfg'.rest = cfg.rest ∧ cfg'.dhcp4 = cfg.dhcp4 ∧
      ∃ sec sec', cfg.dhcp6 = some sec ∧ cfg'.dhcp6 = some sec' ∧ Patched id sec sec'
  | .add block _ => OnlyDhcp4 cfg cfg' ∧ cfg'.dhcp4.frame = cfg.dhcp4.frame ∧
      Appended block cfg.dhcp4.containers cfg'.dhcp4.containers
  | .delete id => OnlyDhcp4 cfg cfg' ∧ cfg'.dhcp4.frame = cfg.dhcp4.frame ∧
      ∃ s, hasId id s = true ∧ Removed s cfg.dhcp4.containers cfg'.dhcp4.containers
  | .create name _ => OnlyDhcp4 cfg cfg' ∧ cfg'.dhcp4.fields = cfg.dhcp4.fields ∧
      cfg'.dhcp4.subnets = cfg.dhcp4.subnets ∧
      ∃ n : Network, valueOf "name" n.fields = name ∧ n.members = [] ∧ cfg'.dhcp4.nets = cfg.dhcp4.nets ++ [n]
  | .deleteNetwork name => OnlyDhcp4 cfg cfg' ∧ cfg'.dhcp4.fields = cfg.dhcp4.fields ∧
      cfg'.dhcp4.subnets = cfg.dhcp4.subnets ∧
      ∃ before n after, n.hasName name = true ∧ n.members = [] ∧
        cfg.dhcp4.nets = before ++ n :: after ∧ cfg'.dhcp4.nets = before ++ after
  | .move id _ => OnlyDhcp4 cfg cfg' ∧ cfg'.dhcp4.frame = cfg.dhcp4.frame ∧
      cfg'.dhcp4.iterSubnets.Perm cfg.dhcp4.iterSubnets ∧
      ∃ s between, hasId id s = true ∧ Removed s cfg.dhcp4.containers between ∧
        Appended s between cfg'.dhcp4.containers

/-- The ids are distinct in each section. -/
structure Config.Unique (cfg : Config) : Prop where
  dhcp4 : IdsUnique cfg.dhcp4.iterSubnets
  dhcp6 : ∀ sec ∈ cfg.dhcp6, IdsUnique sec.iterSubnets

/-- The ids that an edit brings are those of a configuration: no dictionary has a key twice. -/
def SubnetEdit.WF : SubnetEdit → Prop
  | .add block _ => (valueOf "id" block).WF
  | .delete id => id.WF
  | _ => True

/-- What an edit returns is right: the ids are distinct still, an edit that was not made changes nothing, and
one that was made does what it is for. -/
structure SubnetEdit.Right (cfg : Config) (edit : SubnetEdit) (cfg' : Config) (report : Report) : Prop where
  unique : cfg'.Unique
  unmade : report.made = false → cfg' = cfg
  did : report.made = true → edit.Did cfg cfg'

section Edits

variable {cfg cfg' : Config} {report : Report}

/-- An edit that was not made. -/
theorem SubnetEdit.right_unmade {edit : SubnetEdit} (hcfg : cfg.Unique) (hreport : report.made = false) :
    edit.Right cfg cfg report where
  unique := hcfg
  unmade _ := rfl
  did h := by
    rw [hreport] at h
    cases h

/-- An edit that was made. -/
theorem SubnetEdit.right_made {edit : SubnetEdit} (hunique : cfg'.Unique) (hreport : report.made = true)
    (hdid : edit.Did cfg cfg') : edit.Right cfg cfg' report where
  unique := hunique
  unmade h := by
    rw [hreport] at h
    cases h
  did _ := hdid

theorem IdsUnique.removed {sec sec' : Section} {s : Fields} (h : IdsUnique sec.iterSubnets)
    (hremoved : Removed s sec.containers sec'.containers) : IdsUnique sec'.iterSubnets := by
  rw [iterSubnets_eq] at h ⊢
  exact (h.perm hremoved.perm).tail

theorem IdsUnique.patched {sec sec' : Section} {id : Json} (h : IdsUnique sec.iterSubnets)
    (hpatched : Patched id sec sec') : IdsUnique sec'.iterSubnets := by
  obtain ⟨-, s, s', -, hid, hreplaced⟩ := hpatched
  obtain ⟨rest, hperm, hperm'⟩ := hreplaced.perm
  rw [iterSubnets_eq] at h ⊢
  exact ((h.perm hperm).replace hid).perm hperm'.symm

/-! ### Patches -/

theorem set_findIdx_self {α : Type} {q : α → Bool} {l : List α} {a : α} (h : l.find? q = some a) :
    l.set (l.findIdx q) a = l := by
  have hany : l.any q = true := List.any_eq_true.mpr ⟨a, List.mem_of_find?_eq_some h, List.find?_some h⟩
  obtain ⟨before, a', after, rfl, -, -, hfind, -, hset⟩ := exists_first hany
  rw [h] at hfind
  rw [hset a, Option.some.inj hfind]

theorem overFirst_set_self {q : Fields → Bool} {ns : List Network} {s : Fields}
    (h : (ns.flatMap Network.members).find? q = some s) :
    overFirst q (fun subs => subs.set (subs.findIdx q) s) ns = ns := by
  induction ns with
  | nil => rfl
  | cons n ns ih =>
    rw [List.flatMap_cons, List.find?_append] at h
    unfold overFirst
    by_cases hn : n.members.any q = true
    · rw [if_pos hn]
      obtain ⟨before, a, after, hsplit, -, -, hfind, -, -⟩ := exists_first hn
      rw [hfind, Option.some_or] at h
      have hsame : n.members.set (n.members.findIdx q) s = n.members :=
        set_findIdx_self (hfind.trans h)
      rw [hsame]
      have hsubnets : some n.members = n.subnets := by
        cases hsubs : n.subnets with
        | some subs => exact congrArg some (by unfold Network.members; rw [hsubs]; rfl)
        | none =>
          unfold Network.members at hn
          rw [hsubs] at hn
          cases hn
      rw [hsubnets]
    · rw [if_neg hn]
      have hnone : n.members.find? q = none := by
        rw [List.find?_eq_none]
        exact List.any_eq_false.mp (Bool.eq_false_iff.mpr hn)
      rw [hnone, Option.none_or] at h
      rw [ih h]

/-- The first subnet in its own place leaves the section as it is. -/
theorem Section.overFirst_set_self {q : Fields → Bool} {sec : Section} {s : Fields}
    (h : sec.iterSubnets.find? q = some s) :
    sec.overFirst q (fun subs => subs.set (subs.findIdx q) s) = sec := by
  unfold Section.iterSubnets at h
  rw [List.find?_append] at h
  unfold Section.overFirst
  by_cases htop : sec.top.any q = true
  · rw [if_pos htop]
    obtain ⟨before, a, after, hsplit, -, -, hfind, -, -⟩ := Edit.exists_first htop
    rw [hfind, Option.some_or] at h
    have hsame : sec.top.set (sec.top.findIdx q) s = sec.top := set_findIdx_self (hfind.trans h)
    have hsubnets : some sec.top = sec.subnets := by
      cases hsubs : sec.subnets with
      | some subs => exact congrArg some (by unfold Section.top; rw [hsubs]; rfl)
      | none =>
        unfold Section.top at htop
        rw [hsubs] at htop
        cases htop
    show { sec with subnets := some (sec.top.set (sec.top.findIdx q) s) } = sec
    rw [hsame, hsubnets]
  · rw [if_neg htop]
    have hnone : sec.top.find? q = none := by
      rw [List.find?_eq_none]
      exact List.any_eq_false.mp (Bool.eq_false_iff.mpr htop)
    rw [hnone, Option.none_or] at h
    have hnetworks : sec.networks.map (Edit.overFirst q fun subs => subs.set (subs.findIdx q) s) =
        sec.networks := by
      unfold Section.nets at h
      cases hnets : sec.networks with
      | none => rfl
      | some ns =>
        rw [hnets] at h
        exact congrArg some (Edit.overFirst_set_self h)
    rw [hnetworks]

theorem Section.patch_spec {sec sec' : Section} {id : Json} {step : Step} {changed : Bool}
    (hstep : step.Sound) (h : sec.patch id step = .ok (sec', changed)) :
    (changed = false → sec' = sec) ∧ (changed = true → Patched id sec sec') := by
  unfold Section.patch at h
  cases hfind : sec.iterSubnets.find? (hasId id) with
  | none =>
    rw [hfind] at h
    obtain ⟨rfl, rfl⟩ := Prod.mk.inj (Except.ok.inj h)
    exact ⟨fun _ => rfl, fun h => by cases h⟩
  | some s =>
    rw [hfind] at h
    obtain ⟨⟨s', changed'⟩, hs', h⟩ := Except.bind_eq_ok.mp h
    obtain ⟨rfl, rfl⟩ := Prod.mk.inj (Except.ok.inj h)
    obtain ⟨hid, hsame⟩ := hstep s s' changed' hs'
    constructor
    · intro hchanged
      show sec.overFirst _ (fun subs => subs.set _ s') = sec
      rw [hsame hchanged]
      exact Section.overFirst_set_self hfind
    · intro _
      have hany : sec.iterSubnets.any (hasId id) = true :=
        List.any_eq_true.mpr ⟨s, List.mem_of_find?_eq_some hfind, List.find?_some hfind⟩
      obtain ⟨left, before, s₀, after, right, hfirst⟩ := sec.exists_first hany
      have hs₀ : s₀ = s := Option.some.inj (hfirst.first.symm.trans hfind)
      subst hs₀
      exact ⟨hfirst.frame _, s₀, s', hfirst.found, hid, left, before, after, right, hfirst.containers,
        hfirst.replaced s'⟩

theorem SubnetEdit.right_patch4 {id : Json} {form : Form4} (hcfg : cfg.Unique)
    (h : patchSubnet4 cfg id form = .ok (cfg', report)) :
    (SubnetEdit.patch4 id form).Right cfg cfg' report := by
  obtain ⟨⟨sec', changed⟩, hpatch, h⟩ := Except.bind_eq_ok.mp h
  obtain ⟨rfl, rfl⟩ := Prod.mk.inj (Except.ok.inj h)
  obtain ⟨hsame, hpatched⟩ := Section.patch_spec form.sound hpatch
  cases changed with
  | false =>
    rw [hsame rfl]
    exact SubnetEdit.right_unmade hcfg rfl
  | true =>
    exact SubnetEdit.right_made ⟨hcfg.dhcp4.patched (hpatched rfl), hcfg.dhcp6⟩ rfl
      ⟨⟨rfl, rfl⟩, hpatched rfl⟩

theorem SubnetEdit.right_patch6 {id : Json} {form : Form6} (hcfg : cfg.Unique)
    (h : patchSubnet6 cfg id form = .ok (cfg', report)) :
    (SubnetEdit.patch6 id form).Right cfg cfg' report := by
  unfold patchSubnet6 at h
  cases hsec : cfg.dhcp6 with
  | none =>
    rw [hsec] at h
    obtain ⟨rfl, rfl⟩ := Prod.mk.inj (Except.ok.inj h)
    exact SubnetEdit.right_unmade hcfg rfl
  | some sec =>
    rw [hsec] at h
    obtain ⟨⟨sec', changed⟩, hpatch, h⟩ := Except.bind_eq_ok.mp h
    obtain ⟨rfl, rfl⟩ := Prod.mk.inj (Except.ok.inj h)
    obtain ⟨hsame, hpatched⟩ := Section.patch_spec form.sound hpatch
    cases changed with
    | false =>
      have heq : { cfg with dhcp6 := some sec' } = cfg := by rw [hsame rfl, ← hsec]
      show SubnetEdit.Right cfg _ { cfg with dhcp6 := some sec' } _
      rw [heq]
      exact SubnetEdit.right_unmade hcfg rfl
    | true =>
      refine SubnetEdit.right_made ⟨hcfg.dhcp4, fun sec'' hsec'' => ?_⟩ rfl
        ⟨rfl, rfl, sec, sec', hsec, rfl, hpatched rfl⟩
      obtain rfl := Option.some.inj hsec''
      exact (hcfg.dhcp6 sec hsec).patched (hpatched rfl)

/-! ### A subnet at the end of a container -/

theorem appended_appendNamed {name : Json} {s : Fields} {ns : List Network}
    (h : ns.any (Network.hasName name) = true) :
    Appended s (ns.map Network.members) ((appendNamed name s ns).map Network.members) ∧
      (appendNamed name s ns).map Network.fields = ns.map Network.fields := by
  induction ns with
  | nil => cases h
  | cons n ns ih =>
    unfold appendNamed
    by_cases hn : n.hasName name = true
    · rw [if_pos hn]
      exact ⟨⟨[], n.members, ns.map Network.members, rfl, rfl⟩, rfl⟩
    · rw [if_neg hn]
      rw [List.any_cons, Bool.eq_false_iff.mpr hn, Bool.false_or] at h
      obtain ⟨⟨left, subs, right, heq, heq'⟩, hfields⟩ := ih h
      refine ⟨⟨n.members :: left, subs, right, ?_, ?_⟩, ?_⟩
      · rw [List.map_cons, heq, List.cons_append]
      · rw [List.map_cons, heq', List.cons_append]
      · rw [List.map_cons, List.map_cons, hfields]

theorem Section.appended_append {sec : Section} {name : Json} {s : Fields}
    (h : name = .null ∨ sec.nets.any (Network.hasName name) = true) :
    Appended s sec.containers (sec.append name s).containers ∧ (sec.append name s).frame = sec.frame := by
  unfold Section.append
  by_cases hnull : name = .null
  · rw [if_pos hnull]
    exact ⟨⟨[], sec.top, sec.nets.map Network.members, rfl, rfl⟩, rfl⟩
  · rw [if_neg hnull]
    obtain ⟨⟨left, subs, right, heq, heq'⟩, hfields⟩ := appended_appendNamed (s := s) (h.resolve_left hnull)
    have hnets : (sec.networks.map (appendNamed name s)).getD [] = appendNamed name s sec.nets := by
      unfold Section.nets
      cases sec.networks <;> rfl
    refine ⟨⟨sec.top :: left, subs, right, ?_, ?_⟩, ?_⟩
    · show sec.top :: sec.nets.map Network.members = _
      rw [heq, List.cons_append]
    · show sec.top :: ((sec.networks.map (appendNamed name s)).getD []).map Network.members = _
      rw [hnets, heq', List.cons_append]
    · show (sec.fields, ((sec.networks.map (appendNamed name s)).getD []).map Network.fields) = _
      rw [hnets, hfields]
      rfl

theorem IdsUnique.appended {sec sec' : Section} {s : Fields} (h : IdsUnique sec.iterSubnets)
    (hs : (valueOf "id" s).WF) (hnew : sec.iterSubnets.any (hasId (valueOf "id" s)) = false)
    (happended : Appended s sec.containers sec'.containers) : IdsUnique sec'.iterSubnets := by
  have hcons : IdsUnique (s :: sec.iterSubnets) :=
    h.cons hs fun t ht => Bool.eq_false_iff.mpr (List.any_eq_false.mp hnew t ht)
  rw [iterSubnets_eq] at hcons ⊢
  exact hcons.perm happended.perm.symm

theorem SubnetEdit.right_add {block : Fields} {sharedNetwork : Json} (hcfg : cfg.Unique)
    (hblock : (valueOf "id" block).WF) :
    (SubnetEdit.add block sharedNetwork).Right cfg (addSubnet4 cfg block sharedNetwork).1
      (addSubnet4 cfg block sharedNetwork).2 := by
  have hmade : ∀ name, cfg.dhcp4.iterSubnets.any (hasId (valueOf "id" block)) = false →
      (name = .null ∨ cfg.dhcp4.nets.any (Network.hasName name) = true) →
      (SubnetEdit.add block sharedNetwork).Right cfg
        { cfg with dhcp4 := cfg.dhcp4.append name block } .ok := by
    intro name hnew hname
    obtain ⟨happended, hframe⟩ := Section.appended_append (s := block) hname
    exact SubnetEdit.right_made ⟨hcfg.dhcp4.appended hblock hnew happended, hcfg.dhcp6⟩ rfl
      ⟨⟨rfl, rfl⟩, hframe, happended⟩
  unfold addSubnet4
  split_ifs with hexists htop hnamed
  · exact SubnetEdit.right_unmade hcfg rfl
  · exact hmade .null (Bool.eq_false_iff.mpr hexists) (Or.inl rfl)
  · exact hmade sharedNetwork (Bool.eq_false_iff.mpr hexists) (Or.inr hnamed)
  · exact SubnetEdit.right_unmade hcfg rfl

/-! ### Deletions and moves -/

theorem SubnetEdit.right_delete {id : Json} (hcfg : cfg.Unique) (hid : id.WF) :
    (SubnetEdit.delete id).Right cfg (deleteSubnet4 cfg id).1 (deleteSubnet4 cfg id).2 := by
  unfold deleteSubnet4
  split_ifs with hany
  · obtain ⟨left, before, s, after, right, hfirst⟩ := cfg.dhcp4.exists_first hany
    -- the id is that of no other subnet, so the filter takes one out
    have hafter : after.filter (fun t => !hasId id t) = after := by
      have hunique : IdsUnique (s :: (left ++ (before ++ after) :: right).flatten) := by
        have hids := hcfg.dhcp4
        rw [iterSubnets_eq] at hids
        exact hids.perm (Removed.perm ⟨left, before, after, right, hfirst.containers, rfl⟩)
      rw [List.filter_eq_self]
      intro t ht
      have htmem : t ∈ (left ++ (before ++ after) :: right).flatten :=
        List.mem_flatten.mpr ⟨before ++ after, by simp, List.mem_append_right _ ht⟩
      rw [hunique.hasId_eq_false hid hfirst.found t htmem]
      rfl
    have hremoved : Removed s cfg.dhcp4.containers
        (cfg.dhcp4.overFirst (hasId id) fun subs => subs.filter fun s => !hasId id s).containers := by
      refine ⟨left, before, after, right, hfirst.containers, ?_⟩
      rw [hfirst.filtered, hafter]
    exact SubnetEdit.right_made ⟨hcfg.dhcp4.removed hremoved, hcfg.dhcp6⟩ rfl
      ⟨⟨rfl, rfl⟩, hfirst.frame _, s, hfirst.found, hremoved⟩
  · exact SubnetEdit.right_unmade hcfg rfl

theorem map_fst_placed {sec : Section} : sec.placed.map Prod.fst = sec.iterSubnets := by
  unfold Section.placed Section.iterSubnets
  rw [List.map_append, List.map_map, List.map_flatMap]
  have htop : sec.top.map (Prod.fst ∘ fun s => (s, Json.null)) = sec.top := List.map_id _
  have hnets : (sec.nets.flatMap fun n => (n.members.map fun s => (s, valueOf "name" n.fields)).map Prod.fst) =
      sec.nets.flatMap Network.members := by
    congr 1
    funext n
    rw [List.map_map]
    exact List.map_id _
  rw [htop, hnets]

/-- Which shared networks have a name is of the frame. -/
theorem any_hasName_of_frame {sec sec' : Section} (h : sec'.frame = sec.frame) (name : Json) :
    sec'.nets.any (Network.hasName name) = sec.nets.any (Network.hasName name) := by
  have hfields : ∀ ns : List Network, ns.any (Network.hasName name) =
      (ns.map Network.fields).any fun fs => (valueOf "name" fs).pyEq name := by
    intro ns
    rw [List.any_map]
    rfl
  rw [hfields, hfields, (Prod.mk.inj h).2]

theorem SubnetEdit.right_move {id toNetwork : Json} (hcfg : cfg.Unique) :
    (SubnetEdit.move id toNetwork).Right cfg (moveSubnet4 cfg id toNetwork).1
      (moveSubnet4 cfg id toNetwork).2 := by
  unfold moveSubnet4
  dsimp only
  cases hfind : cfg.dhcp4.placed.find? fun x => hasId id x.1 with
  | none => exact SubnetEdit.right_unmade hcfg rfl
  | some x =>
    obtain ⟨s, curName⟩ := x
    dsimp only
    split_ifs with hsame hnone
    · exact SubnetEdit.right_unmade hcfg rfl
    · exact SubnetEdit.right_unmade hcfg rfl
    · have hfirst : cfg.dhcp4.iterSubnets.find? (hasId id) = some s := by
        rw [← map_fst_placed, List.find?_map]
        show (cfg.dhcp4.placed.find? fun x => hasId id x.1).map Prod.fst = some s
        rw [hfind]
        rfl
      have hany : cfg.dhcp4.iterSubnets.any (hasId id) = true :=
        List.any_eq_true.mpr ⟨s, List.mem_of_find?_eq_some hfirst, List.find?_some hfirst⟩
      obtain ⟨left, before, s₀, after, right, hsplit⟩ := cfg.dhcp4.exists_first hany
      have hs₀ : s₀ = s := Option.some.inj (hsplit.first.symm.trans hfirst)
      subst hs₀
      have hremoved : Removed s₀ cfg.dhcp4.containers
          (cfg.dhcp4.overFirst (hasId id) fun subs => subs.eraseP (hasId id)).containers :=
        ⟨left, before, after, right, hsplit.containers, hsplit.erased⟩
      have htarget : toNetwork.orNull = .null ∨
          (cfg.dhcp4.overFirst (hasId id) fun subs => subs.eraseP (hasId id)).nets.any
            (Network.hasName toNetwork.orNull) = true := by
        rw [any_hasName_of_frame (hsplit.frame _)]
        by_contra hneither
        rw [not_or] at hneither
        exact hnone hneither
      obtain ⟨happended, hframe⟩ := Section.appended_append (s := s₀) htarget
      have hperm := happended.perm.trans hremoved.perm.symm
      rw [← iterSubnets_eq, ← iterSubnets_eq] at hperm
      exact SubnetEdit.right_made ⟨hcfg.dhcp4.perm hperm.symm, hcfg.dhcp6⟩ rfl
        ⟨⟨rfl, rfl⟩, hframe.trans (hsplit.frame _), hperm, s₀, _, hsplit.found, hremoved, happended⟩

/-! ### Shared networks -/

theorem SubnetEdit.right_create {name interface : Json} (hcfg : cfg.Unique) :
    (SubnetEdit.create name interface).Right cfg (createSharedNetwork4 cfg name interface).1
      (createSharedNetwork4 cfg name interface).2 := by
  unfold createSharedNetwork4
  dsimp only
  split_ifs with hexists hinterface
  · exact SubnetEdit.right_unmade hcfg rfl
  all_goals
    refine SubnetEdit.right_made ⟨?_, hcfg.dhcp6⟩ rfl ⟨⟨rfl, rfl⟩, rfl, rfl, _, ?_, ?_, rfl⟩
    · have hsame : ∀ n : Network, n.members = [] →
          cfg.dhcp4.top ++ (cfg.dhcp4.nets ++ [n]).flatMap Network.members = cfg.dhcp4.iterSubnets := by
        intro n hn
        rw [List.flatMap_append, List.flatMap_singleton, hn, List.append_nil]
        rfl
      show IdsUnique (cfg.dhcp4.top ++ (cfg.dhcp4.nets ++ [_]).flatMap Network.members)
      rw [hsame _ rfl]
      exact hcfg.dhcp4
    · rfl
    · rfl

theorem SubnetEdit.right_deleteNetwork {name : Json} (hcfg : cfg.Unique) :
    (SubnetEdit.deleteNetwork name).Right cfg (deleteSharedNetwork4 cfg name).1
      (deleteSharedNetwork4 cfg name).2 := by
  unfold deleteSharedNetwork4
  cases hfind : cfg.dhcp4.nets.find? (Network.hasName name) with
  | none => exact SubnetEdit.right_unmade hcfg rfl
  | some n =>
    dsimp only
    split_ifs with hmembers
    · exact SubnetEdit.right_unmade hcfg rfl
    · have hempty : n.members = [] := not_not.mp hmembers
      have hany : cfg.dhcp4.nets.any (Network.hasName name) = true :=
        List.any_eq_true.mpr ⟨n, List.mem_of_find?_eq_some hfind, List.find?_some hfind⟩
      obtain ⟨before, n', after, hsplit, hname, -, hfirst, herase, -⟩ := exists_first hany
      have hn' : n' = n := Option.some.inj (hfirst.symm.trans hfind)
      subst hn'
      have hsubnets : cfg.dhcp4.top ++ (cfg.dhcp4.nets.eraseP (Network.hasName name)).flatMap Network.members =
          cfg.dhcp4.iterSubnets := by
        unfold Section.iterSubnets
        rw [herase, hsplit, List.flatMap_append, List.flatMap_append, List.flatMap_cons, hempty,
          List.nil_append]
      refine SubnetEdit.right_made ⟨?_, hcfg.dhcp6⟩ rfl
        ⟨⟨rfl, rfl⟩, rfl, rfl, before, n', after, hname, hempty, hsplit, herase⟩
      show IdsUnique (cfg.dhcp4.top ++
        (cfg.dhcp4.nets.eraseP (Network.hasName name)).flatMap Network.members)
      rw [hsubnets]
      exact hcfg.dhcp4

/-! ## Runs -/

/-- One edit. -/
theorem SubnetEdit.right_apply {edit : SubnetEdit} (hcfg : cfg.Unique) (hedit : edit.WF)
    (h : edit.apply cfg = .ok (cfg', report)) : edit.Right cfg cfg' report := by
  cases edit with
  | patch4 id form => exact right_patch4 hcfg h
  | patch6 id form => exact right_patch6 hcfg h
  | add block sharedNetwork =>
    obtain ⟨rfl, rfl⟩ := Prod.mk.inj (Except.ok.inj h)
    exact right_add hcfg hedit
  | delete id =>
    obtain ⟨rfl, rfl⟩ := Prod.mk.inj (Except.ok.inj h)
    exact right_delete hcfg hedit
  | create name interface =>
    obtain ⟨rfl, rfl⟩ := Prod.mk.inj (Except.ok.inj h)
    exact right_create hcfg
  | deleteNetwork name =>
    obtain ⟨rfl, rfl⟩ := Prod.mk.inj (Except.ok.inj h)
    exact right_deleteNetwork hcfg
  | move id toNetwork =>
    obtain ⟨rfl, rfl⟩ := Prod.mk.inj (Except.ok.inj h)
    exact right_move hcfg

/-- The ids stay distinct over a run. -/
theorem unique_run {edits : List SubnetEdit} (hcfg : cfg.Unique) (hedits : ∀ edit ∈ edits, edit.WF) :
    (SubnetEdit.run cfg edits).Unique := by
  induction edits generalizing cfg with
  | nil => exact hcfg
  | cons edit edits ih =>
    have hrest : ∀ edit' ∈ edits, edit'.WF := fun edit' h => hedits edit' (List.mem_cons_of_mem _ h)
    unfold SubnetEdit.run
    cases hresult : edit.apply cfg with
    | error e => exact ih hcfg hrest
    | ok result =>
      obtain ⟨cfg', report⟩ := result
      exact ih (SubnetEdit.right_apply hcfg (hedits edit List.mem_cons_self) hresult).unique hrest

end Edits

/-! ### Two subnets and a shared network -/

/-- Two subnets at the top, and a shared network without any. -/
def twoSubnets : Config where
  rest := []
  dhcp4 :=
    { fields := [("valid-lifetime", .int 4000)]
      subnets := some [[("id", .int 1), ("subnet", .str "10.0.1.0/24")],
        [("id", .int 2), ("subnet", .str "10.0.2.0/24")]]
      networks := some [⟨[("name", .str "guest")], none⟩] }
  dhcp6 := none

end JenKea.Edit
