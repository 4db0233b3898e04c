/-
Several hosts behind one manager.

Every host has a libvirt connection of its own, and all of them share the store.  A VM's
record names its host; lookups ask the hosts in turn for the record and then go to the host
it names, and a listing asks them all and takes each VM from the host that owns it.

A host's answers to `Get` and `List` are the stored records with what its libvirt knows of
them laid over.  A host that is failing answers neither.
-/
import VMSmith.Types.VM
import VMSmith.Lib.Bucket
import VMSmith.Lib.CIDR

namespace VMSmith

open Go (trimSpace)

/-- A VM with the host its spec names. -/
structure PlacedVM extends VM where
  host : String := ""
  deriving DecidableEq, Repr

/-- A store as the managers leave it: each record under its own ID. -/
structure StoredVMs where
  vms : Bucket String PlacedVM
  keyed : ∀ id vm, vms.get? id = some vm → vm.id = id

/-- A host's manager. -/
structure HostManager where
  /-- What it fails with, if it is failing. -/
  failing : Option Err := none
  /-- The state and the address of the domain with this name, if libvirt has it. -/
  domain : String → Option (VMState × String) := fun _ => none

namespace HostManager

/-- A record as the host sees it. -/
def refresh (h : HostManager) (vm : PlacedVM) : PlacedVM :=
  let vm := match h.domain vm.name with
    | some (state, ip) => { vm with state := state, ip := ip }
    | none => vm
  if vm.ip = "" ∧ vm.spec.natStaticIP ≠ "" then
    match Net.parseCIDR vm.spec.natStaticIP with
    | some ip => { vm with ip := ip }
    | none => vm
  else vm

/-- `Get` of one host's manager. -/
def get (h : HostManager) (store : StoredVMs) (id : String) : Except Err PlacedVM :=
  match h.failing with
  | some e => .error e
  | none =>
      match store.vms.get? id with
      | none => .error (.ext ("vms/" ++ id ++ ": not found"))
      | some vm => .ok (h.refresh vm)

/-- `List` of one host's manager. -/
def list (h : HostManager) (store : StoredVMs) : Except Err (List PlacedVM) :=
  match h.failing with
  | some e => .error e
  | none => .ok (store.vms.values.map h.refresh)

end HostManager

/-- `MultiHostManager`: the hosts by name, one of them the default. -/
structure MultiHostManager where
  hosts : Bucket String HostManager
  defaultName : String
  default : HostManager
  known : hosts.get? defaultName = some default

namespace MultiHostManager

variable (m : MultiHostManager) (store : StoredVMs)

/-- The hosts in the order they are asked: the default first, the others by name. -/
def order : List (String × HostManager) :=
  (m.defaultName, m.default) :: m.hosts.entries.filter fun h => h.1 ≠ m.defaultName

/-- `hostFor`. -/
def hostFor (host : String) : String :=
  if trimSpace host = "" then m.defaultName else trimSpace host

/-- `manager`. -/
def manager (host : String) : Except Err (String × HostManager) :=
  let name := m.hostFor host
  match m.hosts.get? name with
  | none => .error (.api "invalid_host" ("host \"" ++ name ++ "\" is not configured (known hosts: " ++
      Go.join ", " (m.order.map Prod.fst) ++ ")"))
  | some h => .ok (name, h)

/-- The hosts asked in turn: the first to have the record says whose it is. -/
def locateAmong (id : String) (lastErr : Err) :
    List (String × HostManager) → Except Err ((String × HostManager) × PlacedVM)
  | [] => .error lastErr
  | h :: hs =>
      match h.2.get store id with
      | .error e => locateAmong id e hs
      | .ok vm =>
          match m.manager vm.host with
          -- the host it names is no longer configured
          | .error _ => .ok (h, vm)
          | .ok owner => .ok (owner, vm)

/-- `locate`. -/
def locate (id : String) : Except Err ((String × HostManager) × PlacedVM) :=
  m.locateAmong store id (.ext ("vms/" ++ id ++ ": not found")) m.order

/-- `Get`. -/
def get (id : String) : Except Err PlacedVM := do
  let (owner, _) ← m.locate store id
  owner.2.get store id

/-- Whose listing carries the rows of this host. -/
def owner (host : String) : String :=
  let name := m.hostFor host
  if (m.hosts.get? name).isSome then name else m.defaultName

/-- What has been made of the listings so far. -/
structure Merge where
  out : List PlacedVM := []
  /-- The IDs in `out`. -/
  seen : List String := []
  failed : List String := []
  firstErr : Option Err := none

/-- One host's listing: its own rows are taken. -/
def Merge.add (acc : Merge) (name : String) : Except Err (List PlacedVM) → Merge
  | .error e => { acc with failed := acc.failed ++ [name], firstErr := acc.firstErr.or (some e) }
  | .ok vms =>
      let own := vms.filter fun vm => m.owner vm.host = name
      { acc with out := acc.out ++ own, seen := acc.seen ++ own.map fun vm => vm.id }

/-- The rows of the failed hosts, from a listing that has them. -/
def Merge.backfill (acc : Merge) : List PlacedVM → Merge
  | [] => acc
  | vm :: vms =>
      if m.owner vm.host ∈ acc.failed ∧ vm.id ∉ acc.seen then
        backfill { acc with out := acc.out ++ [vm], seen := acc.seen ++ [vm.id] } vms
      else backfill acc vms

/-- `List`. -/
def list : Except Err (List PlacedVM) :=
  let acc := m.order.foldl (fun (acc : Merge) h => acc.add m h.1 (h.2.list store)) {}
  if acc.failed.length = m.order.length then .error (acc.firstErr.getD (.ext ""))
  else if acc.failed = [] then .ok acc.out
  else
    match m.order.findSome? fun h => (h.2.list store).toOption with
    | none => .ok acc.out
    | some vms => .ok (acc.backfill m vms).out

end MultiHostManager

end VMSmith
