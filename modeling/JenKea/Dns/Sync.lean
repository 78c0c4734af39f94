import JenKea.Dns.Remote
import JenKea.Lib.Prog

/-!
# The DNS sync

One run of `_sync_locked`: the desired names against the ledger and the records of the server, the plan,
its delivery, and the ledger after it. Every call of the server may be refused, be executed with its reply
lost, or raise something that the plugin does not expect.
-/

namespace JenKea.Dns

open Text

/-! ## The plan -/

/-- The ledger: the names that the sync added for a target, each with its address and its source. -/
abbrev Ledger : Type := Map Name (Address × Source)

/-- A plan of `plan_sync`. -/
structure Plan where
  add : List (Name × Address) := []
  update : List (Name × Address) := []
  remove : List Name := []
  deriving DecidableEq

/-- `plan_sync`. -/
def planSync (desired : Map Name Address) (ledger : Map Name Address) (remote : Map String String) :
    Plan where
  add := desired.entries.filter fun x => (ledger.get x.1).isNone
  update := desired.entries.filter fun x => (ledger.get x.1).any fun held =>
    held ≠ x.2 || remote.get x.1.text ≠ some x.2.text
  remove := ledger.keys.filter fun name => (desired.get name).isNone

/-! ## The operations -/

/-- An exception: the plugin's own `_SyncError`, with its text, or any other. -/
inductive Exc where
  | sync (message : String)
  | other
  deriving DecidableEq

/-- What a sync reports as delivered. -/
structure Delivered where
  upserts : List (Name × Address × Source) := []
  removes : List Name := []
  errors : List String := []

/-- What a sync asks of Jen's databases and of the server. -/
inductive DnsOp : Type
  | target
  | session
  | logout
  | query (source : Source) (subnets : List ℤ)
  | ledger
  | fetch
  | add (name : Name) (ip : Address)
  | remove (name : Name) (ip : Address)
  | updateLedger (upserts : List (Name × Address × Source)) (removes : List Name)
  | recordResult (summary : String)
  | alert (summary : String)

/-- What each operation answers. A query, and the ledger, are `none` when they cannot be read; a session
says whether it is one that can be ended. -/
@[reducible] def DnsOp.Result (B : Backend) : DnsOp → Type
  | .target => Except Exc (Option Target)
  | .session => Except Exc Bool
  | .logout | .add .. | .remove .. => Except Exc Unit
  | .query .. => Option (List Candidate)
  | .ledger => Option Ledger
  | .fetch => Except Exc (List B.Rec)
  | .updateLedger .. | .recordResult _ | .alert _ => Unit

/-- The interface of the sync. -/
@[reducible] def DnsI (B : Backend) : Interface where
  Op := DnsOp
  Ans o := o.Result B

/-- A program of the sync. -/
abbrev DnsM (B : Backend) (α : Type) : Type := Prog (DnsI B) Exc α

section Programs

variable (B : Backend)

/-- One call. -/
def ask (o : DnsOp) : DnsM B (o.Result B) := .call o .done

/-- The row of the target. -/
def callTarget : DnsM B (Option Target) := .call .target .ofExcept

/-- `_pihole_sid`: whether the server gave a session. -/
def callSession : DnsM B Bool := .call .session .ofExcept

/-- The end of a session, and what it raises. -/
def callLogout : DnsM B Unit := .call .logout .ofExcept

/-- `_fetch_remote`, without the reading of its records. -/
def callFetch : DnsM B (List B.Rec) := .call .fetch .ofExcept

/-- `_apply_add`. -/
def applyAdd (name : Name) (ip : Address) : DnsM B Unit := .call (.add name ip) .ofExcept

/-- `_apply_remove`. -/
def applyRemove (name : Name) (ip : Address) : DnsM B Unit := .call (.remove name ip) .ofExcept

variable {B}

/-- `try: ... except _SyncError`: the text of the error, or what the program returns. -/
def attempt {α : Type} (p : DnsM B α) : DnsM B (String ⊕ α) :=
  (p.bind fun a => .done (.inr a)).handle fun
    | .sync message => .done (.inl message)
    | .other => .raise .other

/-! ## The delivery -/

/-- The add of a plan, and of an update. -/
def addRecord (source : Name → Source) (x : Name × Address) (acc : Delivered) :
    DnsM B Delivered := do
  match ← attempt (applyAdd B x.1 x.2) with
  | .inr _ => return { acc with upserts := acc.upserts ++ [(x.1, x.2, source x.1)] }
  | .inl message => return { acc with errors := acc.errors ++ [s!"{x.1.text}: {message}"] }

/-- An update: the record that the ledger holds is taken out before the new one is added. -/
def updateRecord (ledger : Map Name Address) (source : Name → Source) (x : Name × Address)
    (acc : Delivered) : DnsM B Delivered := do
  match ledger.get x.1 with
  | some old =>
    if old = x.2 then addRecord source x acc
    else
      match ← attempt (applyRemove B x.1 old) with
      | .inr _ => addRecord source x { acc with removes := acc.removes ++ [x.1] }
      | .inl message => return { acc with errors := acc.errors ++ [s!"{x.1.text}: {message}"] }
  | none => addRecord source x acc

/-- The removal of a plan. -/
def removeRecord (ledger : Map Name Address) (name : Name) (acc : Delivered) : DnsM B Delivered := do
  match ledger.get name with
  | none => return acc
  | some ip =>
    match ← attempt (applyRemove B name ip) with
    | .inr _ => return { acc with removes := acc.removes ++ [name] }
    | .inl message => return { acc with errors := acc.errors ++ [s!"{name.text}: {message}"] }

/-- `apply_plan`. -/
def applyPlan (plan : Plan) (ledger : Map Name Address) (source : Name → Source) :
    DnsM B Delivered := do
  let acc ← Prog.fold (addRecord source) plan.add {}
  let acc ← Prog.fold (updateRecord ledger source) plan.update acc
  Prog.fold (removeRecord ledger) plan.remove acc

/-! ## One run -/

/-- `_leases_for_subnets`, `_reservations_for_subnets` and `_ipam_for_subnets`: a target without subnets
asks nothing, and a query that fails answers with an empty list. -/
def rowsForSubnets (source : Source) (subnets : List ℤ) : DnsM B (List Candidate) :=
  if subnets = [] then pure []
  else do
    let rows ← ask B (.query source subnets)
    return rows.getD []

/-- `_desired_for_target`. -/
def desiredForTarget (t : Target) : DnsM B (Map Name (Address × Source)) := do
  let leases ← rowsForSubnets .lease t.subnetIds
  let reservations ← rowsForSubnets .reservation t.subnetIds
  let ipam ← rowsForSubnets .ipam t.subnetIds
  return (normalizeDesired (buildDesired t.enabledSources leases reservations ipam)).1

/-- What `_plan_for_target` returns. -/
structure Planned where
  plan : Plan
  source : Name → Source
  ledger : Map Name Address
  remoteError : String

/-- The names and addresses that the server holds, as the sync reads them. -/
def remoteNames (records : List B.Rec) : Map String String := .ofList (records.filterMap B.read)

/-- `source_by_name.get(name, "lease")`. -/
def sourceOf (desired : Map Name (Address × Source)) (name : Name) : Source :=
  ((desired.get name).map Prod.snd).getD .lease

/-- `_plan_for_target`, on an open session. -/
def planForTarget (t : Target) : DnsM B Planned := do
  let desired ← desiredForTarget t
  let source := sourceOf desired
  match ← ask B .ledger with
  | none => return { plan := {}, source, ledger := .empty, remoteError := unread }
  | some rows =>
    let ledger := rows.mapValues Prod.fst
    let (remote, remoteError) := match ← attempt (callFetch B) with
      | .inr records => (remoteNames records, "")
      | .inl message => (.empty, message)
    return { plan := planSync (desired.mapValues Prod.fst) ledger remote, source, ledger, remoteError }
where
  unread : String := "The sync ledger could not be read; the details are in Jen's log."

/-- `_pihole_logout`: only a `_SyncError` is passed over. -/
def logout (sid : Bool) : DnsM B Unit := do
  if ¬ sid then return ()
  let _ ← attempt (callLogout B)
  return ()

/-- `_remote_session`. -/
def remoteSession {α : Type} (body : DnsM B α) : DnsM B α :=
  if B.session then do
    let sid ← callSession B
    let result ← (body.bind fun a => .done (.ok a)).handle fun e => .done (.error e)
    logout sid
    .ofExcept result
  else body

/-- `_record_sync_result` and `_maybe_alert`. -/
def report (summary alerted : String) (failed : Bool) : DnsM B Unit := do
  ask B (.recordResult summary)
  if failed then ask B (.alert alerted)

/-- `"; ".join(errors[:n])`. -/
def joinErrors (n : ℕ) (errors : List String) : String := "; ".intercalate (errors.take n)

/-- The part of `_sync_locked` on the session: what was delivered, where the server could be read. -/
def syncOnSession (t : Target) : DnsM B (Option Delivered) := do
  let planned ← planForTarget t
  if planned.remoteError ≠ "" then
    report planned.remoteError planned.remoteError true
    return none
  let delivered ← applyPlan planned.plan planned.ledger planned.source
  return some delivered

/-- `_update_ledger` is asked only where something was delivered. -/
def updateLedger (delivered : Delivered) : DnsM B Unit :=
  if delivered.upserts = [] ∧ delivered.removes = [] then pure ()
  else ask B (.updateLedger delivered.upserts delivered.removes)

/-- `_sync_locked`. -/
def syncLocked : DnsM B Unit := do
  match ← callTarget B with
  | none => return ()
  | some t =>
    if ¬ t.enabled ∨ ¬ t.previewed then return ()
    match ← attempt (remoteSession (syncOnSession t)) with
    | .inl message => report message message true
    | .inr none => return ()
    | .inr (some delivered) =>
      updateLedger delivered
      report (joinErrors 5 delivered.errors) (joinErrors 3 delivered.errors)
        (delivered.errors ≠ [])

end Programs

/-! ## The world -/

/-- What the environment decides at a call: it is done, or it fails, whether or not it was executed. -/
inductive Decision where
  | ok
  | fails (executed : Bool) (e : Exc)
  deriving DecidableEq

instance : Inhabited Decision := ⟨.ok⟩

/-- The call had its effect. -/
def Decision.executed : Decision → Bool
  | .ok => true
  | .fails executed _ => executed

/-- The reply of a call. -/
def Decision.reply {α : Type} (a : α) : Decision → Except Exc α
  | .ok => .ok a
  | .fails _ e => .error e

/-- The ledger after `_update_ledger`: the removals first. -/
def Ledger.updated (ledger : Ledger) (upserts : List (Name × Address × Source)) (removes : List Name) :
    Ledger :=
  (removes.foldl (fun l name => l.erase name) ledger).putAll upserts

/-- The databases and the server, with what the sync did in its latest run (`log`), and what it ever
added to the server and did not take out again (`added`), or added with a reply (`confirmed`). -/
structure World (B : Backend) where
  target : Option Target
  sources : Source → Option (List Candidate)
  ledger : Ledger
  remote : List B.Rec
  /-- The server asks for a password, and so gives a session. -/
  password : Bool := true
  added : List (Name × Address) := []
  confirmed : List (Name × Address) := []
  log : List (DnsOp × Decision) := []

variable {B : Backend}

/-- The world after a call. -/
def World.after (w : World B) (c : Decision) : DnsOp → World B
  | .add name ip =>
    let w := if c.executed then
      { w with remote := w.remote ++ [B.record name ip], added := w.added ++ [(name, ip)] } else w
    let w := if c = .ok then { w with confirmed := w.confirmed ++ [(name, ip)] } else w
    { w with log := w.log ++ [(.add name ip, c)] }
  | .remove name ip =>
    let w := if c.executed then
      { w with remote := B.delete (B.record name ip) w.remote,
               added := w.added.filter fun x => x ≠ (name, ip) } else w
    { w with log := w.log ++ [(.remove name ip, c)] }
  | .updateLedger upserts removes =>
    let w := if c = .ok then { w with ledger := w.ledger.updated upserts removes } else w
    { w with log := w.log ++ [(.updateLedger upserts removes, c)] }
  | o => { w with log := w.log ++ [(o, c)] }

/-- The answer of a call. -/
def World.answer (w : World B) (c : Decision) : (o : DnsOp) → o.Result B
  | .target => match c with
    | .ok => .ok w.target
    | .fails .. => .error .other
  | .session => c.reply w.password
  | .logout | .add .. | .remove .. => c.reply ()
  | .query source _ => w.sources source
  | .ledger => if c = .ok then some w.ledger else none
  | .fetch => c.reply w.remote
  | .updateLedger .. | .recordResult _ | .alert _ => ()

/-- The operations. -/
def host : Handler (DnsI B) Decision (World B) := fun o c w => (w.answer c o, w.after c o)

/-- The world after a run of the sync. -/
def World.sync (w : World B) (f : ℕ → Decision) : World B :=
  (syncLocked.run host f { w with log := [] }).state

end JenKea.Dns
