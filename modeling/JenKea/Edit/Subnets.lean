import JenKea.Lib.Digits
import JenKea.Lib.Except
import JenKea.Lib.PyEq

/-!
# Subnets and shared networks

The edits of subnets and shared networks in `jen/services/kea_config_edit.py`. Subnets stand in two levels, at
the top of a section and inside its shared networks, and every edit goes through both: it finds a subnet by its
id, changes the container that it stands in, and leaves the other containers alone.

A configuration is of the right shape by construction: a section holds a list of dictionaries where it holds
subnets or shared networks at all.
-/

namespace JenKea.Edit

open Json

/-! ## The configuration -/

/-- A shared network: its other keys, and its subnets, where it has the key. -/
structure Network where
  fields : Fields
  subnets : Option (List Fields)
  deriving DecidableEq

/-- A section: its other keys, its subnets, and its shared networks. -/
structure Section where
  fields : Fields
  subnets : Option (List Fields)
  networks : Option (List Network)
  deriving DecidableEq

/-- A configuration: the section of DHCPv4, that of DHCPv6 where there is one, and the rest. -/
structure Config where
  rest : Fields
  dhcp4 : Section
  dhcp6 : Option Section
  deriving DecidableEq

/-- The subnets of a shared network. -/
def Network.members (n : Network) : List Fields := n.subnets.getD []

/-- The subnets at the top of a section. -/
def Section.top (sec : Section) : List Fields := sec.subnets.getD []

/-- The shared networks of a section. -/
def Section.nets (sec : Section) : List Network := sec.networks.getD []

/-- `iter_subnet4` and `iter_subnet6`: the subnets at the top, and then those of each shared network. -/
def Section.iterSubnets (sec : Section) : List Fields := sec.top ++ sec.nets.flatMap Network.members

/-- The subnet has the id. -/
def hasId (id : Json) (s : Fields) : Bool := (valueOf "id" s).pyEq id

/-- The shared network has the name. -/
def Network.hasName (name : Json) (n : Network) : Bool := (valueOf "name" n.fields).pyEq name

/-- The first container that holds a subnet with the property, with other subnets. -/
def overFirst (p : Fields → Bool) (g : List Fields → List Fields) : List Network → List Network
  | [] => []
  | n :: ns =>
    if n.members.any p then { n with subnets := some (g n.members) } :: ns else n :: overFirst p g ns

/-- The first container of a section that holds a subnet with the property, with other subnets. -/
def Section.overFirst (p : Fields → Bool) (g : List Fields → List Fields) (sec : Section) : Section :=
  if sec.top.any p then { sec with subnets := some (g sec.top) }
  else { sec with networks := sec.networks.map (Edit.overFirst p g) }

/-- A subnet more at the end of a container. -/
def appended (subnets : Option (List Fields)) (s : Fields) : Option (List Fields) :=
  some (subnets.getD [] ++ [s])

/-- A subnet more in the first shared network of the name. -/
def appendNamed (name : Json) (s : Fields) : List Network → List Network
  | [] => []
  | n :: ns =>
    if n.hasName name then { n with subnets := appended n.subnets s } :: ns else n :: appendNamed name s ns

/-- A subnet more at the top, or in the first shared network of the name. -/
def Section.append (sec : Section) (name : Json) (s : Fields) : Section :=
  if name = .null then { sec with subnets := appended sec.subnets s }
  else { sec with networks := sec.networks.map (appendNamed name s) }

/-! ## Patches -/

/-- An edit raises: a text is no number, or a value is not of the kind that the code expects. -/
inductive Raised where
  | value
  | shape
  deriving DecidableEq

/-- A part of a patch: the subnet after it, and whether that differs. -/
abbrev Step : Type := Fields → Except Raised (Fields × Bool)

/-- `_set_if_different`. -/
def setIfDifferent (key : String) (v : Json) : Step := fun s =>
  .ok (if (valueOf key s).pyEq v then (s, false) else (set key v s, true))

/-- A number of the form, where it was filled in. -/
def setNumber (key text : String) : Step := fun s =>
  if text = "" then .ok (s, false)
  else
    match Text.toInt text with
    | some n => setIfDifferent key (.int n) s
    | none => .error .value

/-- `_set_pools`, where the form names a pool. -/
def setPools (newPool : String) (extraPools : List String) : Step := fun s =>
  if newPool = "" then .ok (s, false)
  else setIfDifferent "pools" (.arr ((newPool :: extraPools).map fun p => .obj [("pool", .str p)])) s

/-- `isinstance(o, dict) and o.get("code") == code`. -/
def hasCode (code : ℤ) : Json → Bool
  | .obj o => (valueOf "code" o).pyEq (.int code)
  | _ => false

/-- `isinstance(o, dict) and o.get("code") is None and o.get("name") == name`. -/
def hasOnlyName (name : String) : Json → Bool
  | .obj o => valueOf "code" o == .null && (valueOf "name" o).pyEq (.str name)
  | _ => false

/-- The first option with the property, with other data, and whether that differs. -/
def setData (p : Json → Bool) (data : String) : List Json → List Json × Bool
  | [] => ([], false)
  | o :: opts =>
    if p o then
      match o with
      | .obj fields => (.obj (set "data" (.str data) fields) :: opts, !(valueOf "data" fields).pyEq (.str data))
      | o => (o :: opts, false)
    else (o :: (setData p data opts).1, (setData p data opts).2)

/-- `_upsert_option`. -/
def upsertOption (name : String) (code : ℤ) (space data : String) (opts : List Json) : List Json × Bool :=
  if opts.any (hasCode code) then setData (hasCode code) data opts
  else if opts.any (hasOnlyName name) then setData (hasOnlyName name) data opts
  else
    (opts ++ [.obj [("name", .str name), ("code", .int code), ("space", .str space),
      ("csv-format", .bool true), ("data", .str data)]], true)

/-- An option of the form: its name, its code, its space, and its data, empty where it was not filled in. -/
structure OptionField where
  name : String
  code : ℤ
  space : String
  data : String

/-- The options that were filled in, one after the other. -/
def upsertAll : List OptionField → List Json → List Json × Bool
  | [], opts => (opts, false)
  | o :: os, opts =>
    if o.data = "" then upsertAll os opts
    else
      let first := upsertOption o.name o.code o.space o.data opts
      let rest := upsertAll os first.1
      (rest.1, first.2 || rest.2)

/-- The options of a patch. -/
def setOptions (options : List OptionField) : Step := fun s =>
  if options.all fun o => o.data = "" then .ok (s, false)
  else
    match (lookup "option-data" s).getD (.arr []) with
    | .arr opts => .ok (set "option-data" (.arr (upsertAll options opts).1) s, (upsertAll options opts).2)
    | _ => .error .shape

/-- The parts of a patch, one after the other. -/
def steps : List Step → Step
  | [], s => .ok (s, false)
  | step :: rest, s => do
    let (s, changed) ← step s
    let (s, changed') ← steps rest s
    return (s, changed || changed')

/-- The first subnet with the id, patched. -/
def Section.patch (sec : Section) (id : Json) (step : Step) : Except Raised (Section × Bool) :=
  match sec.iterSubnets.find? (hasId id) with
  | none => .ok (sec, false)
  | some s => do
    let (s, changed) ← step s
    return (sec.overFirst (hasId id) fun subs => subs.set (subs.findIdx (hasId id)) s, changed)

/-- The form of a DHCPv4 subnet, as it is delivered. -/
structure Form4 where
  newPool : String := ""
  extraPools : List String := []
  newLifetime : String := ""
  newRenew : String := ""
  newRebind : String := ""
  newRouters : String := ""
  newDns : String := ""

/-- What `patch_subnet4` does to the subnet. -/
def Form4.step (form : Form4) : Step :=
  steps [setPools form.newPool form.extraPools, setNumber "valid-lifetime" form.newLifetime,
    setNumber "renew-timer" form.newRenew, setNumber "rebind-timer" form.newRebind,
    setOptions [⟨"routers", 3, "dhcp4", form.newRouters⟩, ⟨"domain-name-servers", 6, "dhcp4", form.newDns⟩]]

/-- The form of a DHCPv6 subnet. -/
structure Form6 where
  newPool : String := ""
  extraPools : List String := []
  newPreferred : String := ""
  newValid : String := ""
  newRenew : String := ""
  newRebind : String := ""
  newDns : String := ""

/-- What `patch_subnet6` does to the subnet. -/
def Form6.step (form : Form6) : Step :=
  steps [setPools form.newPool form.extraPools, setNumber "preferred-lifetime" form.newPreferred,
    setNumber "valid-lifetime" form.newValid, setNumber "renew-timer" form.newRenew,
    setNumber "rebind-timer" form.newRebind, setOptions [⟨"dns-servers", 23, "dhcp6", form.newDns⟩]]

/-! ## The edits -/

/-- What an edit reports: a code, or whether the configuration differs. -/
inductive Report where
  | ok
  | idexists
  | nonetwork
  | notfound
  | existing
  | notempty
  | nochange
  | changed (differs : Bool)
  deriving DecidableEq

/-- The edit was made. -/
def Report.made : Report → Bool
  | .ok | .changed true => true
  | _ => false

/-- `patch_subnet4`. -/
def patchSubnet4 (cfg : Config) (id : Json) (form : Form4) : Except Raised (Config × Report) := do
  let (sec, changed) ← cfg.dhcp4.patch id form.step
  return ({ cfg with dhcp4 := sec }, .changed changed)

/-- `patch_subnet6`. -/
def patchSubnet6 (cfg : Config) (id : Json) (form : Form6) : Except Raised (Config × Report) :=
  match cfg.dhcp6 with
  | none => .ok (cfg, .changed false)
  | some sec => do
    let (sec, changed) ← sec.patch id form.step
    return ({ cfg with dhcp6 := some sec }, .changed changed)

/-- `add_subnet4`. -/
def addSubnet4 (cfg : Config) (block : Fields) (sharedNetwork : Json) : Config × Report :=
  if cfg.dhcp4.iterSubnets.any (hasId (valueOf "id" block)) then (cfg, .idexists)
  else if sharedNetwork.falsy then ({ cfg with dhcp4 := cfg.dhcp4.append .null block }, .ok)
  else if cfg.dhcp4.nets.any (Network.hasName sharedNetwork) then
    ({ cfg with dhcp4 := cfg.dhcp4.append sharedNetwork block }, .ok)
  else (cfg, .nonetwork)

/-- `delete_subnet4`. -/
def deleteSubnet4 (cfg : Config) (id : Json) : Config × Report :=
  if cfg.dhcp4.iterSubnets.any (hasId id) then
    ({ cfg with dhcp4 := cfg.dhcp4.overFirst (hasId id) fun subs => subs.filter fun s => !hasId id s }, .ok)
  else (cfg, .notfound)

/-- `create_shared_network4`. -/
def createSharedNetwork4 (cfg : Config) (name interface : Json) : Config × Report :=
  if cfg.dhcp4.nets.any (Network.hasName name) then (cfg, .existing)
  else
    let fields := ("name", name) :: if interface.falsy then [] else [("interface", interface)]
    ({ cfg with dhcp4 := { cfg.dhcp4 with networks := some (cfg.dhcp4.nets ++ [⟨fields, some []⟩]) } }, .ok)

/-- `delete_shared_network4`. -/
def deleteSharedNetwork4 (cfg : Config) (name : Json) : Config × Report :=
  match cfg.dhcp4.nets.find? (Network.hasName name) with
  | none => (cfg, .notfound)
  | some n =>
    if n.members ≠ [] then (cfg, .notempty)
    else
      ({ cfg with dhcp4 :=
        { cfg.dhcp4 with networks := some (cfg.dhcp4.nets.eraseP (Network.hasName name)) } }, .ok)

/-- The subnets with the name of their container, `None` at the top. -/
def Section.placed (sec : Section) : List (Fields × Json) :=
  sec.top.map (fun s => (s, .null)) ++
    sec.nets.flatMap fun n => n.members.map fun s => (s, valueOf "name" n.fields)

/-- `move_subnet4`. -/
def moveSubnet4 (cfg : Config) (id toNetwork : Json) : Config × Report :=
  let target := toNetwork.orNull
  match cfg.dhcp4.placed.find? fun x => hasId id x.1 with
  | none => (cfg, .notfound)
  | some (s, curName) =>
    if target.pyEq curName then (cfg, .nochange)
    else if target ≠ .null ∧ ¬ cfg.dhcp4.nets.any (Network.hasName target) then (cfg, .nonetwork)
    else
      let taken := cfg.dhcp4.overFirst (hasId id) fun subs => subs.eraseP (hasId id)
      ({ cfg with dhcp4 := taken.append target s }, .ok)

/-- An edit, with its arguments. -/
inductive SubnetEdit where
  | patch4 (id : Json) (form : Form4)
  | patch6 (id : Json) (form : Form6)
  | add (block : Fields) (sharedNetwork : Json)
  | delete (id : Json)
  | create (name interface : Json)
  | deleteNetwork (name : Json)
  | move (id toNetwork : Json)

/-- The edit of a configuration. -/
def SubnetEdit.apply (cfg : Config) : SubnetEdit → Except Raised (Config × Report)
  | .patch4 id form => patchSubnet4 cfg id form
  | .patch6 id form => patchSubnet6 cfg id form
  | .add block sharedNetwork => .ok (addSubnet4 cfg block sharedNetwork)
  | .delete id => .ok (deleteSubnet4 cfg id)
  | .create name interface => .ok (createSharedNetwork4 cfg name interface)
  | .deleteNetwork name => .ok (deleteSharedNetwork4 cfg name)
  | .move id toNetwork => .ok (moveSubnet4 cfg id toNetwork)

/-- One edit after the other. One that raises returns nothing, and the configuration stays. -/
def SubnetEdit.run (cfg : Config) : List SubnetEdit → Config
  | [] => cfg
  | edit :: edits =>
    match edit.apply cfg with
    | .ok (cfg', _) => run cfg' edits
    | .error _ => run cfg edits

end JenKea.Edit
