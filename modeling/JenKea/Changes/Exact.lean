import JenKea.Changes.Path
import JenKea.Lib.Except
import JenKea.Lib.Ipv4Net

/-!
# What the Changes tab shows, and what it hides

The elements of a path are compared label by label, and of two elements with one label only the later one is. Where
a configuration has several, the tab may be empty although an earlier one changed, or show a change where the same
elements stand in another order.
-/

namespace JenKea.Changes

open Json Overwritten JenKea.Except

/-- A configuration, as `json.loads` gives it. -/
structure Parsed where
  value : Json
  wf : value.WF

/-! ## The elements are values of the configuration -/

section Elements

variable {ip : Ipaddress} {repr : Json → String} {path : ClientPath} {v : Json} {fs : Fields} {k : String}

theorem wf_valueOf (h : ∀ f ∈ fs, f.2.WF) : (valueOf k fs).WF := by
  unfold valueOf
  cases hv : lookup k fs with
  | none => trivial
  | some v => exact h _ (mem_of_lookup hv)

theorem wf_of_obj (h : (Json.obj fs).WF) : ∀ f ∈ fs, f.2.WF := wfFields_iff.mp h.2

theorem wf_valueOf_obj (h : (Json.obj fs).WF) : (valueOf k fs).WF := wf_valueOf (wf_of_obj h)

theorem wf_of_each {xs : List Json} (hv : v.WF) (h : each v = .ok xs) : ∀ x ∈ xs, x.WF := by
  unfold each at h
  split_ifs at h
  · obtain rfl := Except.ok.inj h
    exact fun x hx => absurd hx List.not_mem_nil
  · cases v with
    | arr ys =>
      obtain rfl := Except.ok.inj h
      exact wfList_iff.mp hv
    | obj fs =>
      obtain rfl := Except.ok.inj h
      intro x hx
      obtain ⟨f, _, rfl⟩ := List.mem_map.mp hx
      trivial
    | str s =>
      obtain rfl := Except.ok.inj h
      intro x hx
      obtain ⟨c, _, rfl⟩ := List.mem_map.mp hx
      trivial
    | _ => cases h

theorem wf_filter {p : String × Json → Bool} (h : (Json.obj fs).WF) : (Json.obj (fs.filter p)).WF := by
  refine ⟨h.1.sublist (List.filter_sublist.map _), wfFields_iff.mpr fun f hf => ?_⟩
  exact wf_of_obj h f (List.mem_of_mem_filter hf)

/-- The elements written so far are values without a key twice. -/
def Walk.WF (w : Walk) : Prop := ∀ e ∈ w.out, e.2.WF

theorem Walk.WF.append {w : Walk} {label : String} (h : w.WF) (hv : v.WF) : ∀ e ∈ w.out ++ [(label, v)], e.2.WF := by
  intro e he
  rcases List.mem_append.mp he with he | he
  · exact h e he
  · rw [List.mem_singleton.mp he]
    exact hv

theorem Walk.WF.put {w : Walk} {label : String} {element : Json} (h : w.WF) (hv : v.WF) :
    (w.put repr label v element).WF := h.append hv

theorem wf_putReservation {kind : String} {w : Walk} (h : w.WF) (hv : v.WF) :
    (putReservation ip repr kind path w v).WF := by
  unfold putReservation
  split
  · split_ifs
    · exact h.put hv
    · exact h
  · exact h

theorem wf_foldl_putReservation {kind : String} {w : Walk} {xs : List Json} (h : w.WF) (hxs : ∀ x ∈ xs, x.WF) :
    (xs.foldl (putReservation ip repr kind path) w).WF := by
  induction xs generalizing w with
  | nil => exact h
  | cons x xs ih =>
    rw [List.forall_mem_cons] at hxs
    exact ih (wf_putReservation h hxs.1) hxs.2

theorem wf_putPool {key : String} {w w' : Walk} (h : w.WF) (hv : v.WF)
    (hput : putPool ip repr path key w v = .ok w') : w'.WF := by
  unfold putPool at hput
  obtain ⟨fields, _, hput⟩ := bind_eq_ok.mp hput
  obtain ⟨inside, _, hput⟩ := bind_eq_ok.mp hput
  by_cases hout : inside = some false
  · rw [if_pos hout] at hput
    obtain rfl := Except.ok.inj hput
    exact h
  · rw [if_neg hout] at hput
    obtain rfl := Except.ok.inj hput
    exact h.put hv

theorem wf_putNetwork {w : Walk} {service : Service} {network : Option (ℕ × Fields)} (h : w.WF)
    (hn : ∀ n ∈ network, (Json.obj n.2).WF) : (putNetwork repr service w network).WF := by
  cases network with
  | none => exact h
  | some n =>
    obtain ⟨i, network⟩ := n
    unfold putNetwork
    dsimp only
    split_ifs
    · exact h
    · exact h.append (wf_filter (hn _ rfl))

/-- A loop over values keeps the elements so, where each of its turns does. -/
theorem wf_foldlM {f : Walk → Json → Except Raised Walk} {w w' : Walk} {xs : List Json} (h : w.WF)
    (hxs : ∀ x ∈ xs, x.WF) (hstep : ∀ w x w', Walk.WF w → x.WF → f w x = .ok w' → w'.WF)
    (hrun : xs.foldlM f w = .ok w') : w'.WF := by
  induction xs generalizing w with
  | nil =>
    obtain rfl := Except.ok.inj hrun
    exact h
  | cons x xs ih =>
    rw [List.foldlM_cons] at hrun
    rw [List.forall_mem_cons] at hxs
    obtain ⟨w₁, hfirst, hrest⟩ := bind_eq_ok.mp hrun
    exact ih (hstep w x w₁ h hxs.1 hfirst) hxs.2 hrest

/-- The subnet, and the network around it, are values of the configuration. -/
def WFContext (context : Option (ℕ × Fields) × Json) : Prop :=
  context.2.WF ∧ ∀ n ∈ context.1, (Json.obj n.2).WF

theorem wf_visit {w w' : Walk} {context : Option (ℕ × Fields) × Json} (h : w.WF) (hc : WFContext context)
    (hvisit : visit ip repr path w context = .ok w') : w'.WF := by
  obtain ⟨network, subnet⟩ := context
  obtain ⟨hsubnet, hnetwork⟩ := hc
  cases subnet with
  | obj subnet =>
    unfold visit at hvisit
    dsimp only at hvisit
    split_ifs at hvisit
    · obtain ⟨pools, hpools, hvisit⟩ := bind_eq_ok.mp hvisit
      obtain ⟨w₁, hw₁, hvisit⟩ := bind_eq_ok.mp hvisit
      obtain ⟨pdPools, hpdPools, hvisit⟩ := bind_eq_ok.mp hvisit
      obtain ⟨w₂, hw₂, hvisit⟩ := bind_eq_ok.mp hvisit
      obtain ⟨reservations, hreservations, hvisit⟩ := bind_eq_ok.mp hvisit
      obtain rfl := Except.ok.inj hvisit
      have hwf₁ := wf_foldlM (h.put (wf_filter hsubnet)) (wf_of_each (wf_valueOf_obj hsubnet) hpools)
        (fun _ _ _ hw hx hput => wf_putPool hw hx hput) hw₁
      have hwf₂ := wf_foldlM hwf₁ (wf_of_each (wf_valueOf_obj hsubnet) hpdPools)
        (fun _ _ _ hw hx hput => wf_putPool hw hx hput) hw₂
      exact wf_putNetwork
        (wf_foldl_putReservation hwf₂ (wf_of_each (wf_valueOf_obj hsubnet) hreservations)) hnetwork
    · obtain rfl := Except.ok.inj hvisit
      exact h
  | _ =>
    obtain rfl := Except.ok.inj hvisit
    exact h

theorem wf_foldlM_visit {w w' : Walk} {cs : List (Option (ℕ × Fields) × Json)} (h : w.WF)
    (hcs : ∀ c ∈ cs, WFContext c) (hrun : cs.foldlM (visit ip repr path) w = .ok w') : w'.WF := by
  induction cs generalizing w with
  | nil =>
    obtain rfl := Except.ok.inj hrun
    exact h
  | cons c cs ih =>
    rw [List.foldlM_cons] at hrun
    rw [List.forall_mem_cons] at hcs
    obtain ⟨w₁, hfirst, hrest⟩ := bind_eq_ok.mp hrun
    exact ih (wf_visit h hcs.1 hfirst) hcs.2 hrest

theorem wf_contexts {service : Service} {cs : List (Option (ℕ × Fields) × Json)} (h : (Json.obj fs).WF)
    (hcs : contexts service fs = .ok cs) : ∀ c ∈ cs, WFContext c := by
  unfold contexts at hcs
  obtain ⟨top, htop, hcs⟩ := bind_eq_ok.mp hcs
  obtain ⟨networks, hnetworks, hcs⟩ := bind_eq_ok.mp hcs
  obtain ⟨nested, hnested, hcs⟩ := bind_eq_ok.mp hcs
  obtain rfl := Except.ok.inj hcs
  intro c hc
  rcases List.mem_append.mp hc with hc | hc
  · obtain ⟨s, hs, rfl⟩ := List.mem_map.mp hc
    exact ⟨wf_of_each (wf_valueOf_obj h) htop s hs, fun n hn => absurd hn (Option.not_mem_none n)⟩
  · obtain ⟨⟨network, i⟩, hn, found, hfound, hc⟩ := (mem_flatten_of_mapM hnested).mp hc
    have hnetwork : network.WF :=
      wf_of_each (wf_valueOf_obj h) hnetworks network (List.fst_mem_of_mem_zipIdx hn)
    cases network with
    | obj network =>
      obtain ⟨subnets, hsubnets, hfound⟩ := bind_eq_ok.mp hfound
      obtain rfl := Except.ok.inj hfound
      obtain ⟨s, hs, rfl⟩ := List.mem_map.mp hc
      refine ⟨wf_of_each (wf_valueOf_obj hnetwork) hsubnets s hs, fun n hn => ?_⟩
      obtain rfl := Option.some.inj hn
      exact hnetwork
    | _ =>
      obtain rfl := Except.ok.inj hfound
      exact absurd hc List.not_mem_nil

theorem wf_inner {service : Service} (h : v.WF) : (Json.obj (inner v service)).WF := by
  cases v with
  | obj fs =>
    have hroot : (valueOf service.root fs).WF := wf_valueOf_obj h
    unfold inner
    dsimp only
    cases hv : valueOf service.root fs with
    | obj root =>
      rw [hv] at hroot
      exact hroot
    | _ => exact h
  | _ => exact ⟨List.nodup_nil, trivial⟩

/-- The global settings are a dictionary. -/
theorem wf_settings (h : (Json.obj fs).WF) :
    (Json.obj (globalKeys.filterMap fun key => (lookup key fs).map fun v => (key, v))).WF := by
  have hsublist : ∀ keys : List String,
      ((keys.filterMap fun key => (lookup key fs).map fun v => (key, v)).map Prod.fst).Sublist keys := by
    intro keys
    induction keys with
    | nil => exact List.Sublist.slnil
    | cons key keys ih =>
      rw [List.filterMap_cons]
      cases lookup key fs with
      | none => exact ih.cons key
      | some v => exact ih.cons_cons key
  have hnodup : globalKeys.Nodup := by decide
  refine ⟨hnodup.sublist (hsublist globalKeys), wfFields_iff.mpr fun f hf => ?_⟩
  obtain ⟨key, _, hkey⟩ := List.mem_filterMap.mp hf
  obtain ⟨v, hv, rfl⟩ := Option.map_eq_some_iff.mp hkey
  exact wf_of_obj h _ (mem_of_lookup hv)

theorem wf_putClass {w w' : Walk} (h : w.WF) (hv : v.WF) (hput : putClass w v = .ok w') : w'.WF := by
  cases v with
  | obj definition =>
    unfold putClass at hput
    dsimp only at hput
    cases hname : valueOf "name" definition with
    | str name =>
      rw [hname] at hput
      dsimp only at hput
      split_ifs at hput
      · obtain rfl := Except.ok.inj hput
        exact h.append hv
      · obtain rfl := Except.ok.inj hput
        exact h
    | arr _ | obj _ =>
      rw [hname] at hput
      cases hput
    | _ =>
      rw [hname] at hput
      obtain rfl := Except.ok.inj hput
      exact h
  | _ =>
    obtain rfl := Except.ok.inj hput
    exact h

/-- The elements on a path are values without a key twice, as those of the configuration are. -/
theorem wf_elements {cfg : Parsed} {es : List (String × Json)} (h : elements ip repr cfg.value path = .ok es) :
    ∀ e ∈ es, e.2.WF := by
  have hinner : (Json.obj (inner cfg.value path.service)).WF := wf_inner cfg.wf
  unfold elements at h
  obtain ⟨cs, hcs, h⟩ := bind_eq_ok.mp h
  obtain ⟨w, hw, h⟩ := bind_eq_ok.mp h
  obtain ⟨reservations, hreservations, h⟩ := bind_eq_ok.mp h
  obtain ⟨classes, hclasses, h⟩ := bind_eq_ok.mp h
  obtain ⟨w', hw', h⟩ := bind_eq_ok.mp h
  obtain rfl := Except.ok.inj h
  have hsubnets : w.WF := wf_foldlM_visit (fun e he => absurd he List.not_mem_nil) (wf_contexts hinner hcs) hw
  refine wf_foldlM (wf_foldl_putReservation ?_ (wf_of_each (wf_valueOf_obj hinner) hreservations))
    (wf_of_each (wf_valueOf_obj hinner) hclasses) (fun _ _ _ hw hx hput => wf_putClass hw hx hput) hw'
  split_ifs
  · exact hsubnets.append (wf_settings hinner)
  · exact hsubnets

end Elements

/-! ## What is shown -/

section View

variable (ip : Ipaddress) (repr : Json → String) (canonical : Json → String)
  (diff : String → String → List String) (path : ClientPath) (before after : Parsed)

/-- The view of two configurations has something just where an element of the path was added, removed or changed,
and each difference it has is one of an element of the path. -/
def Exact : Prop :=
  ∃ es es' changes, elements ip repr before.value path = .ok es ∧ elements ip repr after.value path = .ok es' ∧
    diffPaths ip repr canonical diff before.value after.value path = .ok changes ∧
      (changes ≠ [] ↔ ¬ Alike pyEq es es') ∧ ∀ c ∈ changes, ∃ e ∈ es ++ es', e.1 = c.label

/-- Both configurations can be gone through. Where the elements that no later one of the label hides are as they
were, the hidden ones are so too; and where all elements are as they were, in whatever order, so are those that
are not hidden. -/
def Unhidden : Prop :=
  ∃ es es', elements ip repr before.value path = .ok es ∧ elements ip repr after.value path = .ok es' ∧
    (Alike pyEq (shown es) (shown es') → Alike pyEq (hidden es) (hidden es')) ∧
      (Alike pyEq es es' → Alike pyEq (shown es) (shown es'))

end View

section Changes

variable {ip : Ipaddress} {repr : Json → String} {canonical : Json → String}
  {diff : String → String → List String} {path : ClientPath} {old new : Map String Json} {label : String}

theorem pyEq_equality : Equality pyEq WF where
  refl := pyEq_self
  symm _ _ hv hw h := pyEq_symm hv hw h
  trans _ _ _ huv hvw := pyEq_trans huv hvw

theorem mem_labels : label ∈ labels old new ↔ (old.get label).isSome ∨ (new.get label).isSome := by
  unfold labels
  rw [List.mem_insertionSort, List.mem_append, List.mem_filter, decide_eq_true_iff, Map.mem_keys, Map.mem_keys]
  by_cases h : (old.get label).isSome
  · exact iff_of_true (.inl h) (.inl h)
  · exact or_congr_right ⟨And.left, fun hnew => ⟨hnew, h⟩⟩

theorem label_of_changeAt {c : Change} (h : changeAt canonical diff old new label = some c) : c.label = label := by
  unfold changeAt at h
  dsimp only at h
  cases hv : old.get label with
  | none =>
    rw [hv] at h
    cases hw : new.get label with
    | none =>
      rw [hw] at h
      rw [← Option.some.inj h]
    | some w =>
      rw [hw] at h
      rw [← Option.some.inj h]
  | some v =>
    rw [hv] at h
    cases hw : new.get label with
    | none =>
      rw [hw] at h
      rw [← Option.some.inj h]
    | some w =>
      rw [hw] at h
      dsimp only at h
      split_ifs at h
      rw [← Option.some.inj h]

/-- A label of either configuration is passed over where the values are equal. -/
theorem changeAt_eq_none (h : label ∈ labels old new) :
    changeAt canonical diff old new label = none ↔ sameValue pyEq (old.get label) (new.get label) = true := by
  rw [mem_labels] at h
  unfold changeAt
  dsimp only
  cases hv : old.get label with
  | none =>
    cases hw : new.get label with
    | none =>
      rw [hv, hw] at h
      simp at h
    | some w => simp [sameValue]
  | some v =>
    cases hw : new.get label with
    | none => simp [sameValue]
    | some w => simp [sameValue]

theorem changes_eq_nil :
    (labels old new).filterMap (changeAt canonical diff old new) = [] ↔
      ∀ k, sameValue pyEq (old.get k) (new.get k) = true := by
  rw [List.filterMap_eq_nil_iff]
  constructor
  · intro h k
    by_cases hk : k ∈ labels old new
    · exact (changeAt_eq_none hk).mp (h k hk)
    · rw [mem_labels, not_or, Option.not_isSome_iff_eq_none, Option.not_isSome_iff_eq_none] at hk
      rw [hk.1, hk.2]
      rfl
  · intro h label hlabel
    exact (changeAt_eq_none hlabel).mpr (h label)

/-- The view of two configurations that can be gone through is empty just where what it shows of them is alike. -/
theorem diffPaths_spec {before after : Parsed} {es es' : List (String × Json)}
    (hes : elements ip repr before.value path = .ok es) (hes' : elements ip repr after.value path = .ok es') :
    ∃ changes, diffPaths ip repr canonical diff before.value after.value path = .ok changes ∧
      (changes = [] ↔ Alike pyEq (shown es) (shown es')) ∧ ∀ c ∈ changes, ∃ e ∈ es ++ es', e.1 = c.label := by
  have hdiff : diffPaths ip repr canonical diff before.value after.value path =
      .ok ((labels (Map.ofList es) (Map.ofList es')).filterMap
        (changeAt canonical diff (Map.ofList es) (Map.ofList es'))) := by
    unfold diffPaths extract
    rw [hes, hes']
    rfl
  refine ⟨_, hdiff, ?_, fun c hc => ?_⟩
  · rw [changes_eq_nil]
    exact (alike_shown_iff pyEq_equality (wf_elements hes) (wf_elements hes')).symm
  · obtain ⟨label, hlabel, hchange⟩ := List.mem_filterMap.mp hc
    rw [label_of_changeAt hchange]
    rw [mem_labels, isSome_get_ofList, isSome_get_ofList] at hlabel
    rcases hlabel with hlabel | hlabel
    · obtain ⟨e, he, hkey⟩ := List.any_eq_true.mp hlabel
      exact ⟨e, List.mem_append_left es' he, of_decide_eq_true hkey⟩
    · obtain ⟨e, he, hkey⟩ := List.any_eq_true.mp hlabel
      exact ⟨e, List.mem_append_right es he, of_decide_eq_true hkey⟩

end Changes

/-- `ipaddress`, of IPv4 texts. -/
def ipv4 : Ipaddress where
  Address := ℤ
  Network := Ipv4.Network
  address := Ipv4.parse
  network := Ipv4.parseNetwork
  addressText n := (Ipv4.toText n).getD ""
  networkText net := (Ipv4.toText net.address).getD "" ++ "/" ++ toString net.prefixLength
  addressVersion _ := 4
  networkVersion _ := 4
  contains net n := net.address ≤ n && n ≤ net.broadcast
  le a b := some (a ≤ b)

/-- A reservation of the client, under a hostname. -/
def reservation (hostname : String) : Json :=
  .obj [("hw-address", .str "aa:bb:cc:dd:ee:ff"), ("hostname", .str hostname)]

/-- A subnet with that reservation. -/
def subnet (id : ℤ) (net hostname : String) : Json :=
  .obj [("id", .int id), ("subnet", .str net), ("reservations", .arr [reservation hostname])]

/-- Two subnets that reserve an address for the client, the first one under `hostname`. -/
def twoSubnets (hostname : String) : Parsed where
  value := .obj [("Dhcp4", .obj [("subnet4", .arr
    [subnet 1 "10.0.1.0/24" hostname, subnet 2 "10.0.2.0/24" "desk"])])]
  wf := by simp [subnet, reservation, WF, WFList, WFFields]

/-- The path of the client, which has an id in both subnets, and no address yet. -/
def inBoth : ClientPath where
  service := .dhcp4
  subnetIds := [1, 2]
  cidrs := ["10.0.1.0/24", "10.0.2.0/24"]
  identifiers := ["aabbccddeeff"]
  addresses := []
  classes := []

end JenKea.Changes
