/-
The request handlers that come before the manager: creating and cloning VMs.

A handler checks a new VM's name against the VMs listed at that moment and then
calls the manager; nothing holds the name in between.
-/
import VMSmith.VM.Create

namespace VMSmith

open Go (trimSpace equalFold)

namespace Manager

/-- Refresh each VM from libvirt. -/
def refreshAll : List VM → M (List VM)
  | [] => return []
  | vm :: vms => do
      let vm ← refresh vm
      return withStaticIP vm :: (← refreshAll vms)

/-- `List`: all VMs with refreshed state. -/
def list : M (List VM) := do
  let vms ← listVMs
  refreshAll vms

end Manager

namespace Api

variable (d : Daemon)

/-- `VMNameRe`: up to 64 letters, digits and hyphens, with no hyphen at either end. -/
def vmNameRe (name : String) : Bool :=
  let cs := name.toList
  cs.length ≤ 64 && cs.all (fun c => c.isAlphanum || c == '-') &&
    cs.head?.any Char.isAlphanum && cs.getLast?.any Char.isAlphanum

/-- The name checks of create and clone requests. -/
def validateVMName (name : String) : Except Err Unit :=
  if name = "" then .error (.api "invalid_name" "vm name is required")
  else if ¬ vmNameRe name then .error (.api "invalid_name"
    "vm name must be 1-64 characters and contain only letters, numbers, and hyphens")
  else .ok ()

/-- `validateUniqueVMName`. -/
def validateUniqueVMName (name : String) (vms : List VM) : Except Err Unit :=
  if vms.any fun vm => equalFold (trimSpace vm.name) name then
    .error (.api "invalid_name" ("vm name \"" ++ name ++ "\" already exists"))
  else .ok ()

/-- `publishAppEvent`. -/
def publishAppEvent (type vmID message : String) (attributes : List (String × String)) : M Unit := do
  hostCall (.publish {
    type := type
    source := "app"
    vmID := vmID
    severity := "info"
    message := message
    attributes := attributes
    occurredAt := ← now })

/-- `CreateVM`, once the request is decoded. -/
def createVM (spec : VMSpec) : M VM := do
  orFail (validateVMName (trimSpace spec.name))
  let spec := { spec with name := trimSpace spec.name, description := trimSpace spec.description }
  let existing ← Manager.list
  orFail (validateUniqueVMName spec.name existing)
  hostCall (.enforceCreateQuotas spec) >>= orFail
  let slot ← hostCall .acquireCreateSlot
  failIf (slot = false) (.api "create_limit_reached"
    "too many VM create operations in progress; retry once an existing create finishes")
  let vm ← Manager.create d spec
  publishAppEvent "vm.created" vm.id ("VM \"" ++ vm.name ++ "\" created")
    [("name", vm.name), ("image", spec.image)]
  return vm

/-- `CloneVM`, once the request is decoded. -/
def cloneVM (id name : String) : M VM := do
  let name := trimSpace name
  orFail (validateVMName name)
  let existing ← Manager.list
  orFail (validateUniqueVMName name existing)
  let cloned ← Manager.clone d id name
  publishAppEvent "vm.cloned" cloned.id ("VM \"" ++ id ++ "\" cloned to \"" ++ cloned.name ++ "\"")
    [("name", cloned.name), ("source_id", id)]
  return cloned

end Api

end VMSmith
