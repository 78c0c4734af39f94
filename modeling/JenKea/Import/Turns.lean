import Mathlib.Data.List.Dedup
import Mathlib.Data.List.TakeDrop
import JenKea.Import.Integrity
import JenKea.Import.Unreadable

/-!
# The turns of the scopes

`to_kea` takes the scopes one after the other. Which of them get in is known beforehand: those whose
network and id are free when their turn comes (`admitted`). It goes through all of them exactly when what
it looks at of each with an id can be read, and no line of the report is lost on the way.
-/

namespace JenKea.Import

open Json

/-! ## The order of the scopes -/

/-- The id that the review page gives the subnet of a scope. -/
def chosenId (subnetNames : List (String × SubnetName)) (scope : Scope) : Option ℤ :=
  (subnetNames.lookup scope.scopeId).bind SubnetName.id

/-- The network of a scope. -/
def Scope.cidr (scope : Scope) : String :=
  scope.scopeId ++ "/" ++ toString (prefixLen scope.subnetMask)

/-- The scopes whose network and id are free when their turn comes. `cidrs` are the networks that are
taken then, `ids` the ids that scopes before have taken. -/
def admitted (subnetNames : List (String × SubnetName)) (existing : Dhcp4) :
    List Json → List ℤ → List Scope → List (Scope × ℤ)
  | _, _, [] => []
  | cidrs, ids, scope :: scopes =>
    match chosenId subnetNames scope with
    | none => admitted subnetNames existing cidrs ids scopes
    | some id =>
      if cidrs.any fun c => c.pyEq (.str scope.cidr) then
        admitted subnetNames existing cidrs ids scopes
      else
        let cidrs := cidrs ++ [.str scope.cidr]
        if (existing.subnet4ById id).isSome ∨ id ∈ ids then
          admitted subnetNames existing cidrs ids scopes
        else (scope, id) :: admitted subnetNames existing cidrs (id :: ids) scopes

/-- The shared network of this name is there. -/
def Dhcp4.hasNetwork (d4 : Dhcp4) (name : String) : Bool :=
  d4.networks.any fun n => has "name" (.str name) n.fields

/-! ## What a step leaves -/

/-- A step that no network or reserved place goes with: nothing that the report says is lost. -/
structure Beside (st st' : Imported) : Prop where
  networks : st'.cfg.networks.map NetworkEntry.fields = st.cfg.networks.map NetworkEntry.fields
  cidrs : st'.existingCidrs = st.existingCidrs
  report : st.report ⊆ st'.report

theorem Beside.refl (st : Imported) : Beside st st := ⟨rfl, rfl, List.Subset.refl _⟩

theorem Beside.trans {st₁ st₂ st₃ : Imported} (h₁ : Beside st₁ st₂) (h₂ : Beside st₂ st₃) :
    Beside st₁ st₃ where
  networks := h₂.networks.trans h₁.networks
  cidrs := h₂.cidrs.trans h₁.cidrs
  report := List.Subset.trans h₁.report h₂.report

theorem Beside.foldl {α : Type} {f : Imported → α → Imported} (h : ∀ st a, Beside st (f st a))
    (l : List α) (st : Imported) : Beside st (l.foldl f st) := by
  induction l generalizing st with
  | nil => exact Beside.refl st
  | cons a l ih => exact (h st a).trans (ih (f st a))

/-- What a change of an element does not touch. -/
theorem map_changeFirst {α β : Type} (p : α → Bool) (f : α → α) (g : α → β)
    (h : ∀ a, g (f a) = g a) (l : List α) : (changeFirst p f l).map g = l.map g := by
  induction l with
  | nil => rfl
  | cons a l ih =>
    rw [changeFirst]
    split_ifs
    · rw [List.map_cons, List.map_cons, h]
    · rw [List.map_cons, List.map_cons, ih]

theorem hasNetwork_congr {d4 d4' : Dhcp4}
    (h : d4'.networks.map NetworkEntry.fields = d4.networks.map NetworkEntry.fields) (name : String) :
    d4'.hasNetwork name = d4.hasNetwork name := by
  have hany (d4 : Dhcp4) : d4.hasNetwork name =
      (d4.networks.map NetworkEntry.fields).any (has "name" (.str name)) := by
    rw [Dhcp4.hasNetwork, List.any_map]
    rfl
  rw [hany, hany, h]

/-- The networks of a section with a subnet more, or a changed one, are those it had. -/
theorem networks_changeSubnet (d4 : Dhcp4) (id : ℤ) (f : SubnetEntry → SubnetEntry) :
    (d4.changeSubnet id f).networks.map NetworkEntry.fields =
      d4.networks.map NetworkEntry.fields := by
  unfold Dhcp4.changeSubnet
  split_ifs
  · rfl
  · refine map_changeFirst _ _ NetworkEntry.fields (fun _ => ?_) _
    rfl

theorem networks_addSubnet4 {d4 d4' : Dhcp4} {block : SubnetBlock} {net : String}
    (h : addSubnet4 d4 block net = .ok d4') :
    d4'.networks.map NetworkEntry.fields = d4.networks.map NetworkEntry.fields := by
  unfold addSubnet4 at h
  split_ifs at h
  · obtain rfl := Except.ok.inj h
    rfl
  · obtain rfl := Except.ok.inj h
    refine map_changeFirst _ _ NetworkEntry.fields (fun _ => ?_) _
    rfl

/-- A subnet is not added because its id is used, where its network is there. -/
theorem addSubnet4_error {d4 : Dhcp4} {block : SubnetBlock} {net code : String}
    (h : addSubnet4 d4 block net = .error code) (hnet : net = "" ∨ d4.hasNetwork net = true) :
    (d4.subnet4ById block.id).isSome = true := by
  unfold addSubnet4 at h
  split_ifs at h with hid hblank hnetwork
  · rw [Dhcp4.subnet4ById, List.find?_isSome]
    exact List.any_eq_true.mp hid
  · exact absurd (hnet.resolve_left hblank) hnetwork

section Steps

variable {optionsToKea : OptionsToKea} {subnetNames : List (String × SubnetName)}
  {shared : List (String × List String)} {st st' : Imported} {scope : Scope}

theorem beside_subnetGuard (scope : Scope) (id : ℤ) (st : Imported) (name : String) :
    Beside st (importSubnetGuard scope id st name) := by
  unfold importSubnetGuard attachSubnet4
  cases st.cfg.subnet4ById id with
  | none => exact ⟨rfl, rfl, List.subset_append_left _ _⟩
  | some s => exact ⟨networks_changeSubnet _ _ _, rfl, List.Subset.refl _⟩

theorem beside_poolGuard (scope : Scope) (id : ℤ) (st : Imported) (guard : String × String) :
    Beside st (importPoolGuard scope id st guard) := by
  unfold importPoolGuard attachPool4
  cases st.cfg.subnet4ById id with
  | none => exact ⟨rfl, rfl, List.subset_append_left _ _⟩
  | some s =>
    dsimp only
    split_ifs
    · exact ⟨networks_changeSubnet _ _ _, rfl, List.Subset.refl _⟩
    · exact ⟨rfl, rfl, List.subset_append_left _ _⟩

theorem beside_reservation (id : ℤ) (st : Imported) (res : Reservation) :
    Beside st (importReservation optionsToKea id st res) :=
  ⟨rfl, rfl, List.subset_append_left _ _⟩

/-- What comes after a subnet is added: its guards and reservations, and a line of the report. -/
def afterAdding (optionsToKea : OptionsToKea) (scope : Scope) (id : ℤ) (m : MappedScope)
    (declared : ℤ × String × String) (lines : List String) (st : Imported) : Imported :=
  let st := m.subnetGuards.foldl (importSubnetGuard scope id) st
  let st := m.poolGuards.foldl (importPoolGuard scope id) st
  let st := { st with declared := st.declared ++ [declared] }
  let st := scope.reservations.foldl (importReservation optionsToKea id) st
  { st with report := st.report ++ lines }

theorem beside_afterAdding (id : ℤ) (m : MappedScope) (declared : ℤ × String × String)
    (lines : List String) (st : Imported) :
    Beside st (afterAdding optionsToKea scope id m declared lines st) := by
  have hguards := (Beside.foldl (beside_subnetGuard scope id) m.subnetGuards st).trans
    (Beside.foldl (beside_poolGuard scope id) m.poolGuards _)
  have hdeclared (st : Imported) : Beside st { st with declared := st.declared ++ [declared] } :=
    ⟨rfl, rfl, List.Subset.refl _⟩
  have hline (st : Imported) : Beside st { st with report := st.report ++ lines } :=
    ⟨rfl, rfl, List.subset_append_left _ _⟩
  exact ((hguards.trans (hdeclared _)).trans
    (Beside.foldl (beside_reservation id) scope.reservations _)).trans (hline _)

/-- The network of a scope that is mapped. -/
theorem subnet_of_scopeToSubnet {id : ℤ} {m : MappedScope}
    (h : scopeToSubnet optionsToKea scope id = some m) : m.subnet.subnet = scope.cidr := by
  simp only [scopeToSubnet, Option.bind_eq_bind, Option.bind_eq_some_iff] at h
  obtain ⟨segments, -, c, -, pools, -, hm⟩ := h
  rw [← Option.some.inj hm]
  rfl

/-- The turn of a scope. -/
inductive Turned (subnetNames : List (String × SubnetName)) (st st' : Imported) (scope : Scope) :
    Option Added → Prop where
  | unchosen (id : chosenId subnetNames scope = none) (cfg : st'.cfg = st.cfg)
      (cidrs : st'.existingCidrs = st.existingCidrs) : Turned subnetNames st st' scope none
  | taken (id : ℤ) (chosen : chosenId subnetNames scope = some id) (cfg : st'.cfg = st.cfg)
      (there : (st.existingCidrs.any fun c => c.pyEq (.str scope.cidr)) = true)
      (cidrs : st'.existingCidrs = st.existingCidrs) : Turned subnetNames st st' scope none
  | used (id : ℤ) (chosen : chosenId subnetNames scope = some id) (cfg : st'.cfg = st.cfg)
      (free : (st.existingCidrs.any fun c => c.pyEq (.str scope.cidr)) = false)
      (there : (st.cfg.subnet4ById id).isSome = true)
      (cidrs : st'.existingCidrs = st.existingCidrs ++ [.str scope.cidr]) :
      Turned subnetNames st st' scope none
  | added (a : Added) (chosen : chosenId subnetNames scope = some a.id) (this : a.scope = scope)
      (free : (st.existingCidrs.any fun c => c.pyEq (.str scope.cidr)) = false)
      (fresh : st.cfg.subnet4ById a.id = none)
      (cidrs : st'.existingCidrs = st.existingCidrs ++ [.str scope.cidr])
      (ids : ∀ i, (st'.cfg.subnet4ById i).isSome = true ↔
        i = a.id ∨ (st.cfg.subnet4ById i).isSome = true) : Turned subnetNames st st' scope (some a)

/-- The turn of a scope whose shared network is there. -/
theorem importScope_turned {added : Option Added}
    (h : importScope optionsToKea subnetNames shared st scope = some (st', added))
    (hnetwork : ∀ name, networkForScope shared scope.scopeId = some name →
      st.cfg.hasNetwork name = true) :
    Turned subnetNames st st' scope added ∧
      st'.cfg.networks.map NetworkEntry.fields = st.cfg.networks.map NetworkEntry.fields ∧
      st.report ⊆ st'.report := by
  have hturn := h
  unfold importScope at h
  dsimp only at h
  split at h
  · next hid =>
    obtain ⟨rfl, rfl⟩ := Prod.mk.inj (Option.some.inj h)
    exact ⟨.unchosen hid rfl rfl, rfl, List.subset_append_left _ _⟩
  · next id hid =>
    simp only [Option.bind_eq_bind, Option.bind_eq_some_iff] at h
    obtain ⟨m, hm, h⟩ := h
    have hcidr := subnet_of_scopeToSubnet hm
    have hmapped := mapped_scopeToSubnet hm
    rw [hcidr] at h
    split_ifs at h with htaken
    · obtain ⟨rfl, rfl⟩ := Prod.mk.inj (Option.some.inj h)
      refine ⟨.taken id hid rfl htaken rfl, rfl, ?_⟩
      simp only [List.append_assoc]
      exact List.subset_append_left _ _
    · have hfree : (st.existingCidrs.any fun c => c.pyEq (.str scope.cidr)) = false := by
        simpa using htaken
      split at h
      · next code hadd =>
        obtain ⟨rfl, rfl⟩ := Prod.mk.inj (Option.some.inj h)
        refine ⟨.used id hid rfl hfree ?_ rfl, rfl, ?_⟩
        · have hused := addSubnet4_error hadd (by
            cases hname : networkForScope shared scope.scopeId with
            | none => exact .inl rfl
            | some name => exact .inr (hnetwork name hname))
          rwa [hmapped.id] at hused
        · simp only [List.append_assoc]
          exact List.subset_append_left _ _
      · next cfg hadd =>
        rcases importScope_cases hturn with ⟨rfl, -⟩ | ⟨a, rfl, ha, hattach⟩
        · cases (Prod.mk.inj (Option.some.inj h)).2
        obtain ⟨hst, ha'⟩ := Prod.mk.inj (Option.some.inj h)
        obtain rfl := Option.some.inj ha'
        obtain ⟨report, hreport, hbeside⟩ : ∃ report, st.report ⊆ report ∧ Beside { st with
            cfg := { cfg with classes := m.classes.foldl upsertClass4 cfg.classes }
            existingCidrs := st.existingCidrs ++ [Json.str scope.cidr]
            report := report } st' := by
          let friendly :=
            Text.orElse (((subnetNames.lookup scope.scopeId).map SubnetName.name).getD "") scope.name
          refine ⟨st.report ++ adjustedName scope friendly (sanitizeSubnetName friendly id) ++
            m.warnings, ?_, ?_⟩
          · rw [List.append_assoc]
            exact List.subset_append_left _ _
          · rw [← hst]
            exact beside_afterAdding id m _ _ _
        refine ⟨.added _ hid rfl hfree ha.fresh hbeside.cidrs fun i => ?_, ?_, ?_⟩
        · by_cases hi : i = id
          · rw [hi, hattach.this]
            exact ⟨fun _ => .inl rfl, fun _ => rfl⟩
          · rw [hattach.others i hi, ha.others i hi]
            exact ⟨.inr, fun h => h.resolve_left hi⟩
        · have hadded := networks_addSubnet4 hadd
          exact hbeside.networks.trans hadded
        · exact List.Subset.trans hreport hbeside.report

/-- A run through scopes: those that are added are the admitted ones, and nothing that the report says
is lost. -/
theorem importScopes_admitted {existing : Dhcp4} {scopes : List Scope} {added : List Added} {ids : List ℤ}
    (h : importScopes optionsToKea subnetNames shared st scopes = some (st', added))
    (hnetworks : ∀ scope ∈ scopes, ∀ name, networkForScope shared scope.scopeId = some name →
      st.cfg.hasNetwork name = true)
    (hids : ∀ i, (st.cfg.subnet4ById i).isSome = true ↔
      (existing.subnet4ById i).isSome = true ∨ i ∈ ids) :
    added.map (fun a => (a.scope, a.id)) = admitted subnetNames existing st.existingCidrs ids scopes ∧
      st.report ⊆ st'.report ∧ (added = [] → st'.cfg = st.cfg) := by
  induction scopes generalizing st added ids with
  | nil =>
    obtain ⟨rfl, rfl⟩ := Prod.mk.inj (Option.some.inj h)
    exact ⟨rfl, List.Subset.refl _, fun _ => rfl⟩
  | cons scope scopes ih =>
    simp only [importScopes, Option.bind_eq_bind, Option.bind_eq_some_iff, Option.pure_def,
      Option.some.injEq, Prod.mk.injEq] at h
    obtain ⟨⟨st₁, first⟩, hfirst, ⟨st₂, rest⟩, hrest, rfl, rfl⟩ := h
    rw [List.forall_mem_cons] at hnetworks
    obtain ⟨hturned, hfields, hreport⟩ := importScope_turned hfirst hnetworks.1
    have hnetworks₁ : ∀ scope ∈ scopes, ∀ name, networkForScope shared scope.scopeId = some name →
        st₁.cfg.hasNetwork name = true := by
      intro scope hscope name hname
      rw [hasNetwork_congr hfields]
      exact hnetworks.2 scope hscope name hname
    rw [admitted]
    cases hturned with
    | unchosen hid hcfg hcidrs =>
      rw [← hcfg] at hids
      obtain ⟨hadded, hrests, hsame⟩ := ih hrest hnetworks₁ hids
      simp only [hid]
      rw [hcidrs] at hadded
      exact ⟨hadded, List.Subset.trans hreport hrests, fun hnil => (hsame hnil).trans hcfg⟩
    | taken id hid hcfg hthere hcidrs =>
      rw [← hcfg] at hids
      obtain ⟨hadded, hrests, hsame⟩ := ih hrest hnetworks₁ hids
      simp only [hid, hthere, if_true]
      rw [hcidrs] at hadded
      exact ⟨hadded, List.Subset.trans hreport hrests, fun hnil => (hsame hnil).trans hcfg⟩
    | used id hid hcfg hfree hthere hcidrs =>
      have hused := (hids id).mp hthere
      rw [← hcfg] at hids
      obtain ⟨hadded, hrests, hsame⟩ := ih hrest hnetworks₁ hids
      simp only [hid, hfree, Bool.false_eq_true, if_false, if_pos hused]
      rw [hcidrs] at hadded
      exact ⟨hadded, List.Subset.trans hreport hrests, fun hnil => (hsame hnil).trans hcfg⟩
    | added a hid hscope hfree hfresh hcidrs hthese =>
      have hunused : ¬ ((existing.subnet4ById a.id).isSome = true ∨ a.id ∈ ids) := by
        rw [← hids, hfresh]
        simp
      have hids₁ : ∀ i, (st₁.cfg.subnet4ById i).isSome = true ↔
          (existing.subnet4ById i).isSome = true ∨ i ∈ a.id :: ids := by
        intro i
        rw [hthese, hids, List.mem_cons]
        tauto
      obtain ⟨hadded, hrests, -⟩ := ih hrest hnetworks₁ hids₁
      simp only [hid, hfree, Bool.false_eq_true, if_false, if_neg hunused]
      rw [hcidrs] at hadded
      refine ⟨?_, List.Subset.trans hreport hrests, by simp⟩
      rw [Option.toList_some, List.singleton_append, List.map_cons, hadded, hscope]

/-- A scope is gone through exactly when it has no id or what is looked at of it can be read. -/
theorem importScope_isSome_iff (st : Imported) (scope : Scope) :
    (importScope optionsToKea subnetNames shared st scope).isSome = true ↔
      ((chosenId subnetNames scope).isSome = true → scope.Reads optionsToKea) := by
  unfold importScope
  dsimp only
  cases hid : chosenId subnetNames scope with
  | none =>
    rw [show (subnetNames.lookup scope.scopeId).bind SubnetName.id = none from hid]
    exact ⟨fun _ => nofun, fun _ => rfl⟩
  | some id =>
    rw [show (subnetNames.lookup scope.scopeId).bind SubnetName.id = some id from hid]
    have hreads : (scopeToSubnet optionsToKea scope id).isSome = true ↔ scope.Reads optionsToKea :=
      scopeToSubnet_isSome_iff scope id
    cases hm : scopeToSubnet optionsToKea scope id with
    | none =>
      rw [hm] at hreads
      dsimp only [Option.bind_eq_bind]
      rw [hm, Option.bind_none]
      exact ⟨fun h => absurd h (by simp), fun h => absurd (hreads.mpr (h rfl)) (by simp)⟩
    | some m =>
      rw [hm] at hreads
      refine ⟨fun _ _ => hreads.mp rfl, fun _ => ?_⟩
      dsimp only [Option.bind_eq_bind]
      rw [hm, Option.bind_some]
      split_ifs
      · rfl
      · split <;> rfl

/-- So is a list of scopes. -/
theorem importScopes_isSome_iff (scopes : List Scope) (st : Imported) :
    (importScopes optionsToKea subnetNames shared st scopes).isSome = true ↔
      ∀ scope ∈ scopes, (chosenId subnetNames scope).isSome = true → scope.Reads optionsToKea := by
  induction scopes generalizing st with
  | nil => exact ⟨fun _ => by simp, fun _ => rfl⟩
  | cons scope scopes ih =>
    rw [importScopes, List.forall_mem_cons, ← importScope_isSome_iff st scope]
    cases hfirst : importScope optionsToKea subnetNames shared st scope with
    | none => exact ⟨fun h => absurd h (by simp), fun h => absurd h.1 (by simp)⟩
    | some turn =>
      rw [← ih turn.1]
      dsimp only [Option.bind_eq_bind, Option.bind_some]
      cases importScopes optionsToKea subnetNames shared turn.1 scopes with
      | none => exact ⟨fun h => absurd h (by simp), fun h => absurd h.2 (by simp)⟩
      | some rest => exact ⟨fun _ => ⟨rfl, rfl⟩, fun _ => rfl⟩

/-! ## Before the scopes -/

/-- The options of the server and the classes touch no subnet, no network and nothing that the report
says. -/
structure Before (st st' : Imported) : Prop where
  subnets : st'.cfg.subnets = st.cfg.subnets
  networks : st'.cfg.networks = st.cfg.networks
  cidrs : st'.existingCidrs = st.existingCidrs
  report : st.report ⊆ st'.report

theorem Before.refl (st : Imported) : Before st st := ⟨rfl, rfl, rfl, List.Subset.refl _⟩

theorem Before.trans {st₁ st₂ st₃ : Imported} (h₁ : Before st₁ st₂) (h₂ : Before st₂ st₃) :
    Before st₁ st₃ where
  subnets := h₂.subnets.trans h₁.subnets
  networks := h₂.networks.trans h₁.networks
  cidrs := h₂.cidrs.trans h₁.cidrs
  report := List.Subset.trans h₁.report h₂.report

theorem Before.foldl {α : Type} {f : Imported → α → Imported} (h : ∀ st a, Before st (f st a))
    (l : List α) (st : Imported) : Before st (l.foldl f st) := by
  induction l generalizing st with
  | nil => exact Before.refl st
  | cons a l ih => exact (h st a).trans (ih (f st a))

theorem before_importServerOptions (plan : Plan) (st : Imported) :
    Before st (importServerOptions optionsToKea plan st) := by
  have hwarned : Before st { st with
      report := st.report ++ (optionsToKea plan.serverOptions "server").warnings } :=
    ⟨rfl, rfl, rfl, List.subset_append_left _ _⟩
  refine hwarned.trans (Before.foldl (fun st e => ?_) _ _)
  cases e with
  | obj fs =>
    dsimp only
    split_ifs
    · exact ⟨rfl, rfl, rfl, List.subset_append_left _ _⟩
    · exact ⟨rfl, rfl, rfl, List.Subset.refl _⟩
  | _ => exact Before.refl st

theorem before_importClass (st : Imported) (policy : Policy) :
    Before st (importClass optionsToKea st policy) :=
  ⟨rfl, rfl, rfl, List.subset_append_left _ _⟩

/-- A shared network that is there is left, and another one added. -/
theorem importNetwork_cases (st : Imported) (name : String) :
    st.report ⊆ (importNetwork st name).report ∧
    (importNetwork st name).existingCidrs = st.existingCidrs ∧
    ((st.cfg.hasNetwork name = true ∧ (importNetwork st name).cfg = st.cfg) ∨
      st.cfg.hasNetwork name = false ∧ (importNetwork st name).cfg = { st.cfg with
        networks := st.cfg.networks ++ [{ fields := [("name", .str name)] }] }) := by
  refine ⟨?_, ?_, ?_⟩
  · exact List.subset_append_left _ _
  · rfl
  · unfold importNetwork createSharedNetwork4
    cases hthere : st.cfg.networks.any fun n => has "name" (.str name) n.fields with
    | true => exact .inl ⟨hthere, by simp⟩
    | false => exact .inr ⟨hthere, by simp⟩

/-- What the shared networks of the plan come to. -/
structure Networked (names : List String) (st st' : Imported) : Prop where
  iter : st'.cfg.iterSubnet4 = st.cfg.iterSubnet4
  cidrs : st'.existingCidrs = st.existingCidrs
  report : st.report ⊆ st'.report
  kept : ∀ name, st.cfg.hasNetwork name = true → st'.cfg.hasNetwork name = true
  there : ∀ name ∈ names, st'.cfg.hasNetwork name = true
  same : (∀ name ∈ names, st.cfg.hasNetwork name = true) → st'.cfg = st.cfg

theorem networked_foldl (names : List String) (st : Imported) :
    Networked names st (names.foldl importNetwork st) := by
  induction names generalizing st with
  | nil => exact ⟨rfl, rfl, List.Subset.refl _, fun _ h => h, by simp, fun _ => rfl⟩
  | cons name names ih =>
    obtain ⟨hreport, hcidrs, hcases⟩ := importNetwork_cases st name
    obtain ⟨iter, cidrs, report, kept, there, same⟩ := ih (importNetwork st name)
    rw [List.foldl_cons]
    rcases hcases with ⟨hthere, hcfg⟩ | ⟨hnone, hcfg⟩
    · rw [hcfg] at iter kept same
      refine ⟨iter, cidrs.trans hcidrs, List.Subset.trans hreport report, kept, ?_, ?_⟩
      · rw [List.forall_mem_cons]
        exact ⟨kept name hthere, there⟩
      · rw [List.forall_mem_cons]
        exact fun h => same h.2
    · have hself : (importNetwork st name).cfg.hasNetwork name = true := by
        rw [hcfg, Dhcp4.hasNetwork, List.any_append]
        simp [has, pyEq]
      refine ⟨?_, cidrs.trans hcidrs, List.Subset.trans hreport report, fun n hn => kept n ?_, ?_, ?_⟩
      · rw [iter, hcfg]
        simp [Dhcp4.iterSubnet4]
      · rw [hcfg, Dhcp4.hasNetwork, List.any_append, Bool.or_eq_true]
        exact .inl hn
      · rw [List.forall_mem_cons]
        exact ⟨kept name hself, there⟩
      · rw [List.forall_mem_cons]
        intro h
        rw [h.1] at hnone
        cases hnone

/-- A shared network that is not there is added. -/
theorem there_of_cfg_eq {names : List String} {st : Imported}
    (h : (names.foldl importNetwork st).cfg = st.cfg) :
    ∀ name ∈ names, st.cfg.hasNetwork name = true := by
  intro name hname
  rw [← h]
  exact (networked_foldl names st).there name hname

/-- The shared network of an included scope is one of the plan's. -/
theorem networkForScope_mem {plan : Plan} {selections : Selections} {scope : Scope} {name : String}
    (h : networkForScope (sharedBy plan (plan.included selections)) scope.scopeId = some name) :
    name ∈ networkNames (sharedBy plan (plan.included selections)) := by
  unfold networkNames
  rw [List.mem_insertionSort, List.mem_dedup, List.mem_filterMap]
  obtain ⟨net, hnet, -⟩ := Option.map_eq_some_iff.mp h
  obtain ⟨hmem, hcontains⟩ := List.mem_filter.mp (List.mem_of_getLast? hnet)
  exact ⟨scope.scopeId, List.mem_flatMap.mpr ⟨net, hmem, by simpa using hcontains⟩, h⟩

/-- The report says once what it says of option 81. -/
theorem mem_dedupReport {line : String} {report : List String} (h : line ∈ report) :
    line ∈ dedupReport report := by
  have hsplit := List.takeWhile_append_dropWhile (p := fun l => decide (l ≠ option81Warning)) (l := report)
  unfold dedupReport
  rw [List.span_eq_takeWhile_dropWhile]
  cases hdrop : report.dropWhile fun l => decide (l ≠ option81Warning) with
  | nil =>
    rw [hdrop, List.append_nil] at hsplit
    rw [hsplit]
    exact h
  | cons first after =>
    rw [hdrop] at hsplit
    have hfirst : first = option81Warning := by
      have hnot := List.head?_dropWhile_not (fun l => decide (l ≠ option81Warning)) report
      rw [hdrop] at hnot
      simpa using hnot
    dsimp only
    rw [← hsplit, List.mem_append, List.mem_cons] at h
    rw [List.mem_append, List.mem_cons, List.mem_filter]
    rcases h with h | h | h
    · exact .inl h
    · exact .inr (.inl h)
    · by_cases hline : line = option81Warning
      · exact .inr (.inl (hline.trans hfirst.symm))
      · exact .inr (.inr ⟨h, by simpa using hline⟩)

/-- What is there before the scopes. -/
structure Prepared (plan : Plan) (existing : Dhcp4) (selections : Selections) (st : Imported) : Prop where
  iter : st.cfg.iterSubnet4 = existing.iterSubnet4
  cidrs : st.existingCidrs = existing.iterSubnet4.map fun s => (lookup "subnet" s.fields).getD .null
  report : plan.warnings ⊆ st.report
  networks : ∀ name ∈ networkNames (sharedBy plan (plan.included selections)),
    st.cfg.hasNetwork name = true

theorem prepared (plan : Plan) (existing : Dhcp4) (selections : Selections) :
    Prepared plan existing selections (prepare optionsToKea plan existing selections) := by
  let names := networkNames (sharedBy plan (plan.included selections))
  let first : Imported := {
    cfg := existing
    existingCidrs := existing.iterSubnet4.map fun s => (lookup "subnet" s.fields).getD .null
    report := plan.warnings }
  obtain ⟨st, hbefore, hst⟩ : ∃ st, Before first st ∧
      prepare optionsToKea plan existing selections = names.foldl importNetwork st := by
    unfold prepare
    dsimp only
    split_ifs
    · exact ⟨_, (before_importServerOptions plan first).trans
        (Before.foldl before_importClass plan.globalClasses _), rfl⟩
    · exact ⟨_, Before.foldl before_importClass plan.globalClasses first, rfl⟩
    · exact ⟨_, before_importServerOptions plan first, rfl⟩
    · exact ⟨first, Before.refl first, rfl⟩
  have hnetworked := networked_foldl names st
  rw [hst]
  refine ⟨?_, hnetworked.cidrs.trans hbefore.cidrs, ?_, hnetworked.there⟩
  · rw [hnetworked.iter, Dhcp4.iterSubnet4, hbefore.subnets, hbefore.networks]
    rfl
  · exact List.Subset.trans hbefore.report hnetworked.report

/-- An admitted scope is one of them, with the id that was chosen for it. -/
theorem mem_admitted {existing : Dhcp4} {cidrs : List Json} {ids : List ℤ} {scopes : List Scope}
    {s : Scope × ℤ} (h : s ∈ admitted subnetNames existing cidrs ids scopes) :
    s.1 ∈ scopes ∧ chosenId subnetNames s.1 = some s.2 := by
  induction scopes generalizing cidrs ids with
  | nil => cases h
  | cons scope scopes ih =>
    rw [admitted] at h
    split at h
    · exact (ih h).imp_left (List.mem_cons_of_mem _)
    · next id hid =>
      dsimp only at h
      split_ifs at h
      · exact (ih h).imp_left (List.mem_cons_of_mem _)
      · exact (ih h).imp_left (List.mem_cons_of_mem _)
      · rcases List.mem_cons.mp h with rfl | h
        · exact ⟨List.mem_cons_self, hid⟩
        · exact (ih h).imp_left (List.mem_cons_of_mem _)

end Steps

end JenKea.Import
