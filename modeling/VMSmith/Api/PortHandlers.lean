/-
The handlers of port requests, once they are decoded.

Every request names a VM in its path.  An update and a bulk deletion by ID look whether the
rule is among the VM's before they touch it, and a bulk deletion by protocol takes its rules
from there; the forwarder itself finds a rule by its ID alone.

An error is what the manager gave; how it is worded for the client is left out.
-/
import VMSmith.Network.PortForward
import VMSmith.Api.Handlers
import VMSmith.Api.Validation

namespace VMSmith

open Go (trimSpace toLower)

/-- `List`: the rules of one VM, or all of them for the empty ID. -/
def PortForwarder.list (vmID : String) : M (List PortForward) := do
  let forwards ← storeCall .listPortForwards >>= orFail
  return forwards.filter fun fwd => vmID = "" ∨ fwd.vmID = vmID

namespace Api

structure AddPortRequest where
  hostPort : Int
  guestPort : Int
  protocol : String := ""
  description : String := ""
  tags : List String := []
  deriving DecidableEq, Repr

structure UpdatePortRequest where
  description : Option String := none
  tags : Option (List String) := none
  deriving DecidableEq, Repr

structure BulkDeletePortsRequest where
  ids : List String := []
  protocol : String := ""
  deriving DecidableEq, Repr

structure BulkDeletePortResult where
  id : String
  failure : Option Err := none
  deriving DecidableEq, Repr

def maxPortForwardDescriptionLength : Nat := 256

def validatePortForwardDescription (description : String) : Except Err Unit :=
  rejectIf (maxPortForwardDescriptionLength < description.utf8ByteSize)
    (.api "invalid_port_forward" "description must be at most 256 characters")

def normalizePortForwardTags (tags : List String) : Except Err (List String) :=
  (normalizeTags tags).mapError fun
    | .api _ message => .api "invalid_port_forward" message
    | e => e

namespace AddPortRequest

variable (req : AddPortRequest)

/-- TCP unless said otherwise. -/
def proto : String := if req.protocol = "" then "tcp" else req.protocol

/-- The checks of the request, and its tags. -/
def check : Except Err (List String) := do
  validatePortForward req.hostPort req.guestPort req.proto
  validatePortForwardDescription (trimSpace req.description)
  normalizePortForwardTags req.tags

/-- What the forwarder is asked for. -/
def forward (vmID guestIP : String) (tags : List String) : PortForwarder.AddRequest where
  vmID := vmID
  hostPort := req.hostPort
  guestPort := req.guestPort
  guestIP := guestIP
  proto := req.proto
  description := trimSpace req.description
  tags := tags

end AddPortRequest

/-- `AddPort`. -/
def addPort (vmID : String) (req : AddPortRequest) : M PortForward := do
  let tags ← orFail req.check
  let vm ← Manager.get vmID
  failIf (vm.ip = "") (.api "vm_ip_unavailable" "VM does not have an IP address yet; is it running?")
  let rule ← PortForwarder.add (req.forward vmID vm.ip tags)
  publishAppEvent "port_forward.added" vmID "port forward added"
    [("host_port", toString req.hostPort), ("guest_port", toString req.guestPort),
      ("protocol", req.proto)]
  return rule

/-- The checks of the request, and what the forwarder is asked for. -/
def UpdatePortRequest.check (req : UpdatePortRequest) : Except Err PortForwarder.UpdateOptions := do
  patchField req.description (fun d => validatePortForwardDescription (trimSpace d)) ()
  let tags ← patchField req.tags (fun tags => (normalizePortForwardTags tags).map some) none
  return { description := req.description, tags := tags }

/-- `UpdatePort`. -/
def updatePort (vmID portID : String) (req : UpdatePortRequest) : M PortForward := do
  let opts ← orFail req.check
  let ports ← PortForwarder.list vmID
  failIf (portID ∉ ports.map PortForward.id)
    (.api "resource_not_found" ("port forward " ++ portID ++ " not found"))
  let updated ← PortForwarder.update portID opts
  publishAppEvent "port_forward.updated" vmID ("port forward " ++ portID ++ " updated")
    ([("port_id", portID)] ++ req.description.toList.map (fun d => ("description", trimSpace d)) ++
      opts.tags.toList.map fun tags => ("tags", Go.join "," tags))
  return updated

/-- `RemovePort`. -/
def removePort (vmID portID : String) : M Unit := do
  PortForwarder.remove portID
  publishAppEvent "port_forward.removed" vmID ("port forward " ++ portID ++ " removed")
    [("port_id", portID)]

namespace BulkDeletePortsRequest

variable (req : BulkDeletePortsRequest)

/-- The IDs given, without the blank ones. -/
def cleanedIDs : List String := (req.ids.map trimSpace).filter (· ≠ "")

def proto : String := trimSpace (toLower req.protocol)

def check : Except Err Unit := do
  rejectIf (req.cleanedIDs = [] ∧ req.proto = "")
    (.api "invalid_bulk_request" "exactly one of ids or protocol must be provided")
  rejectIf (req.cleanedIDs ≠ [] ∧ req.proto ≠ "")
    (.api "invalid_bulk_request" "ids and protocol are mutually exclusive")
  rejectIf (req.proto ≠ "" ∧ req.proto ≠ "tcp" ∧ req.proto ≠ "udp")
    (.api "invalid_bulk_request" "protocol must be 'tcp' or 'udp'")

end BulkDeletePortsRequest

/-- Remove each of these rules; with `known` only those it has. -/
def bulkRemove (vmID : String) (known : Option (List String)) :
    List String → M (List BulkDeletePortResult)
  | [] => return []
  | id :: ids => do
      let result ←
        if known.any (id ∉ ·) then
          pure { id := id, failure := some (.api "resource_not_found" "port forward not found") }
        else do
          match ← (PortForwarder.remove id).attempt with
          | .error e => pure { id := id, failure := some e }
          | .ok () =>
              publishAppEvent "port_forward.removed" vmID ("port forward " ++ id ++ " removed")
                [("port_id", id), ("bulk", "true")]
              pure { id := id }
      return result :: (← bulkRemove vmID known ids)

/-- `BulkDeletePorts`. -/
def bulkDeletePorts (vmID : String) (req : BulkDeletePortsRequest) : M (List BulkDeletePortResult) := do
  orFail req.check
  let ports ← PortForwarder.list vmID
  if req.proto ≠ "" then
    bulkRemove vmID none ((ports.filter fun fwd => fwd.protocol = req.proto).map PortForward.id)
  else bulkRemove vmID (some (ports.map PortForward.id)) req.cleanedIDs

end Api

/-- A port request, addressed to a VM. -/
inductive PortRequest where
  | add (req : Api.AddPortRequest)
  | update (portID : String) (req : Api.UpdatePortRequest)
  | remove (portID : String)
  | bulkDelete (req : Api.BulkDeletePortsRequest)
  deriving DecidableEq, Repr

def PortRequest.body (vmID : String) : PortRequest → M Unit
  | add req => do
      let _ ← Api.addPort vmID req
      return ()
  | update portID req => do
      let _ ← Api.updatePort vmID portID req
      return ()
  | remove portID => Api.removePort vmID portID
  | bulkDelete req => do
      let _ ← Api.bulkDeletePorts vmID req
      return ()

end VMSmith
