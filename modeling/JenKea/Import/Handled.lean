import JenKea.Import.OptionEntries
import JenKea.Import.Turns
import JenKea.Import.WindowsExport

/-!
# Bad addresses in an export

What becomes of a text of an export that stands for an address and is no IPv4 address. The parser passes
over a scope or a reservation whose address is none at all, and says so. `to_kea` raises where an
exclusion or a range of a policy is no address, and where the range of a scope is IPv6 or has blanks
around it; elsewhere such an address gets into the configuration.
-/

namespace JenKea.Import

open Json

/-- The scopes of an export. -/
def scopeElems (root : Elem) : List Elem :=
  childrenOf (childOf (childOf (some root) "ipv4") "Scopes") "Scope"

/-- The reservations of a scope. -/
def reservationElems (elem : Elem) : List Elem :=
  childrenOf (childOf (some elem) "Reservations") "Reservation"

/-- An address of a scope or of a reservation that is none at all keeps it out of the plan, and the report
says so. -/
structure Reported (isIpv6 : String → Bool) (root : Elem) (report : List String) : Prop where
  scopes : ∀ elem ∈ scopeElems root, ∀ key ∈ requiredFields, validIp isIpv6 (field elem key) = false →
    (parseScope isIpv6 elem).1 = none ∧ ∃ line ∈ (parseScope isIpv6 elem).2, line ∈ report
  reservations : ∀ elem ∈ scopeElems root, (parseScope isIpv6 elem).1.isSome = true →
    ∀ r ∈ reservationElems elem, validIp isIpv6 (field r "IPAddress") = false →
      (parseReservation isIpv6 (scopeContext elem) r).1 = none ∧
        ∃ line ∈ (parseReservation isIpv6 (scopeContext elem) r).2, line ∈ report

/-- The addresses of a scope that no conversion checks. -/
def Scope.unchecked (scope : Scope) : List String :=
  [scope.scopeId, scope.subnetMask] ++ scope.reservations.map Reservation.ip

/-- The addresses of a scope. -/
def Scope.addresses (scope : Scope) : List String :=
  [scope.startRange, scope.endRange] ++ scope.unchecked

/-- The import returns; the scopes that get in have IPv4 addresses only, and exclusions that are blank or
have two of them; what the parser has kept out is reported. -/
def Handled (isIpv6 : String → Bool) (root : Elem) (existing : Dhcp4)
    (subnetNames : List (String × SubnetName)) (selections : Selections) : Prop :=
  ∃ st added,
    toKea optionsToKea (parseExport isIpv6 root) existing subnetNames selections = some (st, added) ∧
    (∀ a ∈ added, (∀ text ∈ a.scope.addresses, (Ipv4.parse text).isSome = true) ∧
      ∀ r ∈ a.scope.exclusions, Readable r) ∧
    Reported isIpv6 root st.report

/-! ## What the parser reports -/

section Parse

variable {isIpv6 : String → Bool}

/-- A reservation whose address is none is passed over with a warning. -/
theorem parseReservation_invalid (context : String) {r : Elem}
    (h : validIp isIpv6 (field r "IPAddress") = false) :
    (parseReservation isIpv6 context r).1 = none ∧ (parseReservation isIpv6 context r).2 ≠ [] := by
  unfold parseReservation
  dsimp only
  by_cases hbootp : Subnets.lower (fieldOr r "Type" "Dhcp") = "bootp"
  · rw [if_pos hbootp]
    exact ⟨rfl, by simp⟩
  rw [if_neg hbootp]
  by_cases hclient : matchesClientId (field r "ClientId") = true
  · rw [if_neg (not_not.mpr hclient), if_pos (by simp [h])]
    exact ⟨rfl, by simp⟩
  · rw [if_pos hclient]
    exact ⟨rfl, by simp⟩

/-- So is a scope. -/
theorem parseScope_invalid {elem : Elem} {key : String} (hkey : key ∈ requiredFields)
    (h : validIp isIpv6 (field elem key) = false) :
    (parseScope isIpv6 elem).1 = none ∧ (parseScope isIpv6 elem).2 ≠ [] := by
  unfold parseScope
  dsimp only
  split
  · exact ⟨rfl, by simp⟩
  · next hnone =>
    have hkept := List.find?_eq_none.mp hnone key hkey
    simp [h] at hkept

/-- A scope that is kept passes on the warnings of its reservations. -/
theorem warnings_parseScope {elem : Elem} (h : (parseScope isIpv6 elem).1.isSome = true) :
    (parseReservations isIpv6 (childOf (some elem) "Reservations") (scopeContext elem)).2 ⊆
      (parseScope isIpv6 elem).2 := by
  unfold parseScope at h ⊢
  dsimp only at h ⊢
  split at h
  · cases h
  · intro line hline
    simp only [List.mem_append]
    exact .inl (.inl (.inl (.inr hline)))

/-- The plan passes on the warnings of its scopes. -/
theorem warnings_parseExport {root elem : Elem} (h : elem ∈ scopeElems root) :
    (parseScope isIpv6 elem).2 ⊆ (parseExport isIpv6 root).warnings := by
  unfold scopeElems at h
  unfold parseExport
  cases hipv4 : childOf (some root) "ipv4" with
  | none =>
    rw [hipv4] at h
    cases h
  | some ipv4 =>
    rw [hipv4] at h
    intro line hline
    dsimp only
    simp only [List.mem_append, List.mem_flatMap, List.mem_map]
    exact .inl (.inl (.inl (.inr ⟨_, ⟨elem, h, rfl⟩, hline⟩)))

/-- A report with the warnings of the plan reports what the parser has kept out. -/
theorem reported_of_subset {root : Elem} {report : List String}
    (h : (parseExport isIpv6 root).warnings ⊆ report) : Reported isIpv6 root report := by
  constructor
  case scopes =>
    intro elem helem key hkey hvalid
    obtain ⟨hnone, hwarned⟩ := parseScope_invalid hkey hvalid
    obtain ⟨line, hline⟩ := List.exists_mem_of_ne_nil _ hwarned
    exact ⟨hnone, line, hline, h (warnings_parseExport helem hline)⟩
  case reservations =>
    intro elem helem hkept r hr hvalid
    obtain ⟨hnone, hwarned⟩ := parseReservation_invalid (scopeContext elem) hvalid
    obtain ⟨line, hline⟩ := List.exists_mem_of_ne_nil _ hwarned
    refine ⟨hnone, line, hline, h (warnings_parseExport helem (warnings_parseScope hkept ?_))⟩
    exact List.mem_flatMap.mpr ⟨_, List.mem_map.mpr ⟨r, hr, rfl⟩, hline⟩

end Parse

/-! ## The import -/

section Import

variable {isIpv6 : String → Bool} {root : Elem} {existing : Dhcp4}
  {subnetNames : List (String × SubnetName)} {selections : Selections}

/-- The networks of a configuration. -/
def Dhcp4.cidrs (d4 : Dhcp4) : List Json :=
  d4.iterSubnet4.map fun s => (lookup "subnet" s.fields).getD .null

/-- The scopes that get into the configuration, by the export, the configuration and the choices. -/
def admittedScopes (isIpv6 : String → Bool) (root : Elem) (existing : Dhcp4)
    (subnetNames : List (String × SubnetName)) (selections : Selections) : List (Scope × ℤ) :=
  admitted subnetNames existing existing.cidrs [] ((parseExport isIpv6 root).included selections)

/-- What a run that returns has come to. -/
theorem toKea_spec {plan : Plan} {st : Imported} {added : List Added}
    (h : toKea optionsToKea plan existing subnetNames selections = some (st, added)) :
    added.map (fun a => (a.scope, a.id)) =
        admitted subnetNames existing existing.cidrs [] (plan.included selections) ∧
      plan.warnings ⊆ st.report ∧
      (added = [] → st.cfg = (prepare optionsToKea plan existing selections).cfg) := by
  simp only [toKea, Option.bind_eq_bind, Option.bind_eq_some_iff, Option.pure_def,
    Option.some.injEq, Prod.mk.injEq] at h
  obtain ⟨⟨st₁, added₁⟩, hscopes, rfl, rfl⟩ := h
  have hprepared : Prepared plan existing selections (prepare optionsToKea plan existing selections) :=
    prepared plan existing selections
  have hids : ∀ i, ((prepare optionsToKea plan existing selections).cfg.subnet4ById i).isSome = true ↔
      (existing.subnet4ById i).isSome = true ∨ i ∈ [] := by
    intro i
    rw [Dhcp4.subnet4ById, hprepared.iter]
    simp [Dhcp4.subnet4ById]
  obtain ⟨hadded, hreport, hsame⟩ := importScopes_admitted hscopes
    (fun scope _ name hname => hprepared.networks name (networkForScope_mem hname)) hids
  rw [hprepared.cidrs] at hadded
  refine ⟨hadded, fun line hline => ?_, hsame⟩
  exact mem_dedupReport (hreport (hprepared.report hline))

/-- `to_kea` returns exactly when what it looks at of each included scope with an id can be read. -/
theorem toKea_isSome_iff (plan : Plan) :
    (toKea optionsToKea plan existing subnetNames selections).isSome = true ↔
      ∀ scope ∈ plan.included selections, (chosenId subnetNames scope).isSome = true →
        scope.Reads optionsToKea := by
  have hscopes : (importScopes optionsToKea subnetNames (sharedBy plan (plan.included selections))
      (prepare optionsToKea plan existing selections) (plan.included selections)).isSome = true ↔
        ∀ scope ∈ plan.included selections, (chosenId subnetNames scope).isSome = true →
          scope.Reads optionsToKea := importScopes_isSome_iff _ _
  rw [← hscopes, toKea]
  cases importScopes optionsToKea subnetNames (sharedBy plan (plan.included selections))
      (prepare optionsToKea plan existing selections) (plan.included selections) with
  | none => exact Iff.rfl
  | some run => exact ⟨fun _ => rfl, fun _ => rfl⟩

/-- The ends of a range that can be read are addresses. -/
theorem isSome_of_range {r : String × String} (h : (parseRange r).isSome = true) :
    (Ipv4.parse r.1).isSome = true ∧ (Ipv4.parse r.2).isSome = true := by
  obtain ⟨b, hb⟩ := Option.isSome_iff_exists.mp h
  obtain ⟨hs, he, -⟩ := parseRange_eq_some hb
  rw [hs, he]
  exact ⟨rfl, rfl⟩

/-- The plan of an export has no classes of its own. -/
theorem globalClasses_parseExport : (parseExport isIpv6 root).globalClasses = [] := by
  unfold parseExport
  cases childOf (some root) "ipv4" <;> rfl

/-- Where neither options nor classes are asked for, only the shared networks come before the scopes. -/
theorem prepare_eq {plan : Plan} (hoptions : ¬ (selections.serverOptions ∧ plan.serverOptions ≠ []))
    (hclasses : plan.globalClasses = []) :
    ∃ st : Imported, st.cfg = existing ∧ prepare optionsToKea plan existing selections =
      (networkNames (sharedBy plan (plan.included selections))).foldl importNetwork st := by
  unfold prepare
  dsimp only
  rw [if_neg hoptions, hclasses]
  let first : Imported := {
    cfg := existing
    existingCidrs := existing.iterSubnet4.map fun s => (lookup "subnet" s.fields).getD .null
    report := plan.warnings }
  exact ⟨first, rfl, by split_ifs <;> rfl⟩

end Import

/-- An element with a text. -/
def leaf (tag text : String) : Elem := .mk tag [] (some text) []

/-- An element with children. -/
def node (tag : String) (children : List Elem) : Elem := .mk tag [] none children

/-- A scope with an exclusion from `10.0.0.300` on. -/
def badExclusion : Elem :=
  node "DHCPServer" [node "IPv4" [node "Scopes" [node "Scope"
    [leaf "ScopeId" "10.0.0.0", leaf "SubnetMask" "255.255.255.0", leaf "StartRange" "10.0.0.10",
      leaf "EndRange" "10.0.0.200", leaf "State" "Active",
      node "ExclusionRanges" [node "IPRange" [leaf "StartRange" "10.0.0.300",
        leaf "EndRange" "10.0.0.310"]]]]]]

end JenKea.Import
