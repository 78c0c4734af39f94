import Mathlib.Data.Int.Notation
import JenKea.Lib.Text

/-!
# Servers, services, and transports

A Kea server as Jen's settings describe it, with the keys that the modelled functions read. Jen
reads every text key by its truth, so that a key that is absent and a key that is blank are one
value here, `""`.
-/

namespace JenKea

open Text

/-- The Kea services that Jen configures. -/
inductive Service where
  | dhcp4
  | dhcp6
  | d2
  deriving DecidableEq, Repr

/-- `SERVICE_KEY`: the section of the services that Jen configures over the API. -/
def serviceKey : Service → Option String
  | .dhcp4 => some "Dhcp4"
  | .dhcp6 => none
  | .d2 => none

/-- The name of a service. -/
def Service.toText : Service → String
  | .dhcp4 => "dhcp4"
  | .dhcp6 => "dhcp6"
  | .d2 => "d2"

instance : ToString Service := ⟨Service.toText⟩

/-- One Kea server of Jen's settings. -/
structure Server where
  /-- The id that Jen assigns, and keeps unique. -/
  id : Option ℤ := none
  /-- The name an operator types. -/
  name : String := ""
  /-- The SSH host; blank when there is none. -/
  sshHost : String := ""
  /-- The address of the daemon's API. -/
  apiUrl : String := ""
  /-- The declared transport, as typed. -/
  configTransport : String := ""
  deriving DecidableEq, Repr

/-- How Jen writes an id in a sentence. -/
def idText : Option ℤ → String
  | some n => toString n
  | none => "None"

/-- `_name`: the server's name, else its SSH host, else its id. -/
def Server.label (s : Server) : String :=
  orElse s.name (orElse s.sshHost s!"Server {idText s.id}")

/-- Whether the server has an SSH host. -/
def Server.hasSsh (s : Server) : Bool := s.sshHost ≠ ""

/-- How a server's configuration is changed: over the daemon's API, through its file, or not. -/
inductive Transport where
  | api
  | file
  | off
  deriving DecidableEq, Repr

/-- `declared_transport`: the server's `config_transport` setting. Absent, it is `file` with an SSH
host and `off` without one; a value that is none of the three, spelled exactly, is `off`. -/
def declaredTransport (s : Server) : Transport :=
  let value := strip s.configTransport
  if value = "" then if s.hasSsh then .file else .off
  else if value = "api" then .api
  else if value = "file" then .file
  else .off

/-- `_transport`: the transport of one server for one service. -/
def transportFor (s : Server) (service : Service) : Transport :=
  if declaredTransport s = .off then .off
  else if serviceKey service = none then if s.hasSsh then .file else .off
  else if declaredTransport s = .file then if s.hasSsh then .file else .off
  else .api

/-- `_transport_for_run`: `_transport`, or the file path where the caller forces it. -/
def transportForRun (s : Server) (service : Service) (force : Option Transport) : Transport :=
  if force = some .file then
    if declaredTransport s ≠ .off ∧ s.hasSsh then .file else .off
  else transportFor s service

/-- What identifies a server in the bookkeeping of a change: its id, or its name where it has no
id. -/
inductive Key where
  | id (n : ℤ)
  | name (text : String)
  deriving DecidableEq, Repr

/-- The key of a server. -/
def Server.key (s : Server) : Key :=
  match s.id with
  | some n => .id n
  | none => .name s.label

/-- Servers of one key have one id, so servers with distinct ids have distinct keys. -/
theorem Server.id_eq_of_key_eq {s t : Server} (h : s.key = t.key) : s.id = t.id := by
  unfold Server.key at h
  cases hs : s.id <;> cases ht : t.id <;> simp_all

end JenKea
