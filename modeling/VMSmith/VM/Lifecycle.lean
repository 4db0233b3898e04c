/-
The manager's operations on one stored VM that change its run state, and the two
that follow libvirt's own account of it: the lifecycle callback and the state
persister.

Each operation reads the record in one transaction, works on the domain, and
writes the whole record in another.
-/
import VMSmith.System.World

namespace VMSmith

def getVM (id : String) : M VM := storeCall (.getVM id) >>= orFail

def listVMs : M (List VM) := storeCall .listVMs >>= orFail

def putVM (vm : VM) : M Unit := storeCall (.putVM vm) >>= orFail

def deleteVM (id : String) : M Unit := storeCall (.deleteVM id) >>= orFail

/-- `time.Now`. -/
def now : M Nat := hostCall .now

/-- The domain of a VM, by the VM's name. -/
def lookupDomain (name : String) : M Nat :=
  virtCall (.lookupDomainByName name) >>= orWrap ("looking up domain " ++ name)

/-- `GetState`, where a failure is the operation's. -/
def getState (dom : Nat) : M DomainState := virtCall (.getState dom) >>= orWrap "getting domain state"

/-- `domainStateToVMState`, of a state that may not have been had. -/
def vmStateOf : Except Err DomainState → VMState
  | .ok .running => .running
  | .ok .shutoff => .stopped
  | .ok .paused => .paused
  | _ => .unknown

/-- `domainStateToVMState`. -/
def domainStateToVMState (dom : Nat) : M VMState := do
  return vmStateOf (← virtCall (.getState dom))

namespace Manager

/-- Write the record back with a new state. -/
def putState (vm : VM) (state : VMState) : M Unit := do
  putVM { vm with state := state, updatedAt := ← now }

def start (id : String) : M Unit := do
  let vm ← getVM id
  let dom ← lookupDomain vm.name
  virtCall (.create dom) >>= orWrap "starting domain"
  putState vm .running

/-- Ask the guest to shut down; when that fails, force it. -/
def shutdownOrDestroy (dom : Nat) (context : String) : M Unit := do
  match ← virtCall (.shutdown dom) with
  | .ok () => return ()
  | .error _ => virtCall (.destroy dom) >>= orWrap context

def stop (id : String) : M Unit := do
  let vm ← getVM id
  let dom ← lookupDomain vm.name
  shutdownOrDestroy dom "force-stopping domain"
  putState vm .stopped

def forceStop (id : String) : M Unit := do
  let vm ← getVM id
  let dom ← lookupDomain vm.name
  let state ← getState dom
  failIf (state = .shutoff) (.api "vm_already_stopped" "vm is already stopped")
  virtCall (.destroy dom) >>= orWrap "force-stopping domain"
  putState vm .stopped

/-- The stop half of a restart. -/
def restartStop (dom : Nat) : M Unit := do
  match ← virtCall (.shutdown dom) with
  | .error _ => virtCall (.destroy dom) >>= orWrap "shutting down domain"
  | .ok () =>
      let off ← virtCall (.waitForShutoff dom)
      onlyIf (off = false) do
        virtCall (.destroy dom) >>= orWrap "forcing shutdown after grace period"

def restart (id : String) : M Unit := do
  let vm ← getVM id
  let dom ← lookupDomain vm.name
  let state ← getState dom
  onlyIf (state = .running) (restartStop dom)
  virtCall (.create dom) >>= orWrap "starting domain"
  putState vm .running

def reboot (id : String) : M Unit := do
  let vm ← getVM id
  let dom ← lookupDomain vm.name
  let state ← getState dom
  failIf (state ≠ .running) (.api "vm_not_running" "vm must be running to reboot")
  virtCall (.reboot dom) >>= orWrap "rebooting domain"
  putState vm vm.state

def suspend (id : String) : M Unit := do
  let vm ← getVM id
  let dom ← lookupDomain vm.name
  let state ← getState dom
  failIf (state = .paused) (.api "vm_already_paused" "vm is already paused")
  failIf (state ≠ .running) (.api "vm_not_running" "vm must be running to suspend")
  virtCall (.suspend dom) >>= orWrap "suspending domain"
  putState vm .paused

def resume (id : String) : M Unit := do
  let vm ← getVM id
  let dom ← lookupDomain vm.name
  let state ← getState dom
  failIf (state ≠ .paused) (.api "vm_not_paused" "vm must be paused to resume")
  virtCall (.resume dom) >>= orWrap "resuming domain"
  putState vm .running

/-- Destroy a domain that is seen to be active, so that its name is freed. -/
def destroyActive (dom : Nat) : M Unit := do
  match ← virtCall (.getState dom) with
  | .ok state => onlyIf (state ≠ .shutoff) do let _ ← virtCall (.destroy dom)
  | .error _ => return ()

/-- `forceUndefineDomain`: destroy the domain if it is active, then undefine it, the
plain way when the thorough way is refused. -/
def forceUndefineDomain (dom : Nat) : M (Except Err Unit) := do
  destroyActive dom
  match ← virtCall (.undefineFlags dom) with
  | .ok () => return .ok ()
  | .error _ => virtCall (.undefine dom)

/-- `RemoveDHCPHost`: errors are ignored. -/
def removeDHCPHost (mac ip : String) : M Unit := do
  let _ ← netCall (.deleteDHCPHost { mac := mac, ip := ip })

/-- Remove the reservation of an address in CIDR notation, if it is one. -/
def removeReservation (mac natStaticIP : String) : M Unit :=
  match Net.parseCIDR natStaticIP with
  | some ip => removeDHCPHost mac ip
  | none => return ()

/-- Tear down the domain of this name, if there is one. -/
def undefineByName (name : String) : M Unit := do
  match ← virtCall (.lookupDomainByName name) with
  | .ok dom => do let _ ← forceUndefineDomain dom
  | .error _ => return ()

/-- `Delete`: the domain, the reservation and the directory are removed as far as they
can be, the record must be. -/
def delete (id : String) : M Unit := do
  let vm ← getVM id
  failIf vm.spec.locked (.api "vm_locked" "vm is locked; unlock it before deleting")
  undefineByName vm.name
  onlyIf (vm.natMAC ≠ "" ∧ vm.spec.natStaticIP ≠ "") (removeReservation vm.natMAC vm.spec.natStaticIP)
  let _ ← fileCall (.removeAll vm.diskPath.dir)
  deleteVM id

/-- State and address as libvirt has them, where it has the domain. -/
def refresh (vm : VM) : M VM := do
  match ← virtCall (.lookupDomainByName vm.name) with
  | .ok dom =>
      let state ← domainStateToVMState dom
      let ip ← virtCall (.getDomainIP dom)
      return { vm with state := state, ip := ip }
  | .error _ => return vm

/-- The static address stands in for one that was not found. -/
def withStaticIP (vm : VM) : VM :=
  if vm.ip = "" ∧ vm.spec.natStaticIP ≠ "" then
    { vm with ip := (Net.parseCIDR vm.spec.natStaticIP).getD "" }
  else vm

/-- `Get`: the record with state and address refreshed. -/
def get (id : String) : M VM := do
  let vm ← getVM id
  return withStaticIP (← refresh vm)

end Manager

/-! ### Following libvirt -/

/-- The word a state is written as. -/
def VMState.text : VMState → String
  | .creating => "creating"
  | .running => "running"
  | .stopped => "stopped"
  | .paused => "paused"
  | .deleted => "deleted"
  | .unknown => "unknown"

def VMState.ofText (s : String) : VMState :=
  (([.creating, .running, .stopped, .paused, .deleted] : List VMState).find? (·.text = s)).getD .unknown

@[simp] theorem VMState.ofText_text (s : VMState) : VMState.ofText s.text = s := by
  cases s <;> decide

/-- `lifecycleEventToVMState`. -/
def lifecycleEventToVMState : LifecycleEvent → VMState
  | .started | .resumed => .running
  | .stopped | .shutdown => .stopped
  | .suspended | .pmsuspended => .paused
  | .crashed => .unknown
  | .undefined => .deleted
  | .defined => .unknown

/-- `lifecycleEventToTypeAndSeverity`. -/
def lifecycleEventToTypeAndSeverity : LifecycleEvent → String × String
  | .defined => ("vm.defined", "info")
  | .undefined => ("vm.undefined", "info")
  | .started => ("vm.started", "info")
  | .suspended | .pmsuspended => ("vm.suspended", "info")
  | .resumed => ("vm.resumed", "info")
  | .stopped => ("vm.stopped", "info")
  | .shutdown => ("vm.shutdown", "info")
  | .crashed => ("vm.crashed", "error")

/-- `findStoredVMByName`. -/
def findStoredVMByName (name : String) (vms : List VM) : Option VM :=
  vms.find? fun vm => Go.equalFold vm.name name

/-- The event published for a change of a stored VM's domain. -/
def lifecycleBusEvent (name : String) (vm : VM) (event : LifecycleEvent) (at_ : Nat) : Event :=
  let state := lifecycleEventToVMState event
  let (type, severity) := lifecycleEventToTypeAndSeverity event
  { type := type
    source := "libvirt"
    vmID := vm.id
    severity := severity
    message := "VM " ++ name ++ " state changed to " ++ state.text
    attributes := [("vm_name", name), ("state", state.text)]
    occurredAt := at_ }

/-- `handleLifecycleEvent`: find the VM by the domain's name and publish. -/
def handleLifecycleEvent (name : String) (event : LifecycleEvent) : M Unit := do
  match ← storeCall .listVMs with
  | .error _ => return ()
  | .ok vms =>
      match findStoredVMByName name vms with
      | none => return ()
      | some vm => hostCall (.publish (lifecycleBusEvent name vm event (← now)))

/-- The state persister's `apply`. -/
def applyEvent (evt : Event) : M Unit := do
  let stateStr := (evt.attributes.lookup "state").getD ""
  if evt.source ≠ "libvirt" ∨ evt.vmID = "" ∨ stateStr = "" then return ()
  else
    match ← storeCall (.getVM evt.vmID) with
    | .error _ => return ()
    | .ok vm =>
        let newState := VMState.ofText stateStr
        onlyIf (vm.state ≠ newState) do
          let at_ ← now
          let _ ← storeCall (.putVM { vm with state := newState, updatedAt := at_ })

end VMSmith
