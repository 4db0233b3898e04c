/-
Redefining a domain from its record, and the two operations on a VM's GPUs.
-/
import VMSmith.VM.Lifecycle

namespace VMSmith

/-- `decryptVNCPassword`. -/
def decryptVNCPassword (d : Daemon) (blob : String) : Option String :=
  if Go.trimSpace d.cfg.passwordKey = "" then none else d.host.cipher.opened d.cfg.passwordKey blob

/-- Put the stored console password into the parameters, or fail. -/
def withStoredVNC (d : Daemon) (vncPasswordEnc : String) (p : DomainParams) :
    Except Err DomainParams :=
  if vncPasswordEnc = "" then .ok p
  else
    match decryptVNCPassword d vncPasswordEnc with
    | some plain => .ok { p with vncPassword := plain }
    | none => .error (.api "vnc_password_undecryptable"
        "stored vnc password cannot be decrypted; check daemon.console.password_key or rotate the password while the vm is stopped")

namespace Manager

variable (d : Daemon)

/-- `redefineDomain`: render the record with a new spec and define the domain anew under
its own UUID. -/
def redefineDomain (dom : Nat) (storedVM : VM) (newSpec : VMSpec) : M Unit := do
  let existingUUID ← virtCall (.getUUIDString dom)
  let params := { DomainParams.render d newSpec storedVM.diskPath storedVM.natMAC with
    uuid := existingUUID }
  let params ← orFail (withStoredVNC d storedVM.vncPasswordEnc params)
  let xmlDoc ← orWrap "generating domain XML" (DomainParams.generateDomainXML params)
  let _ ← virtCall (.domainDefineXML xmlDoc) >>= orWrap "redefining domain"

/-- Attach devices to the running domain, one after another. -/
def liveAttach (dom : Nat) : List String → M Unit
  | [] => return ()
  | addr :: rest => do
      let hostdev ← orFail (DomainParams.gpuHostdevXML addr)
      virtCall (.attachDevice dom hostdev) >>= orWrap ("live-attaching " ++ addr)
      liveAttach dom rest

def invalidGPU (pciAddr : String) : Err :=
  .api "invalid_gpu" ("\"" ++ pciAddr ++ "\" is not a valid PCI address (want 0000:01:00.0 or 01:00.0)")

def attachGPU (id pciAddr : String) (force : Bool) : M VM := do
  let norm := normalizePCIAddress pciAddr
  failIf (norm = "") (invalidGPU pciAddr)
  let storedVM ← getVM id
  failIf (norm ∈ storedVM.spec.resolvedGPUs)
    (.api "gpu_already_attached" ("gpu " ++ norm ++ " is already attached to this vm"))
  let dom ← virtCall (.lookupDomainByName storedVM.name) >>= orWrap "looking up domain"
  let state ← domainStateToVMState dom
  failIf (state = .running ∧ force = false) (.api "vm_running"
    "vm is running; stop it first, or pass force to live-attach (risky — vfio rebinding can wedge the host driver, and the guest needs a reboot to initialise the device)")
  let newSpec := { storedVM.spec with gpus := storedVM.spec.resolvedGPUs ++ [norm] }
  redefineDomain d dom storedVM newSpec
  onlyIf (state = .running ∧ force = true) (liveAttach dom (d.host.expandIOMMUGroups [norm]))
  let updated := { storedVM with spec := newSpec, updatedAt := ← now }
  storeCall (.putVM updated) >>= orWrap "persisting vm"
  return updated

def detachGPU (id pciAddr : String) : M VM := do
  let norm := normalizePCIAddress pciAddr
  failIf (norm = "") (invalidGPU pciAddr)
  let storedVM ← getVM id
  failIf (norm ∉ storedVM.spec.resolvedGPUs)
    (.api "gpu_not_attached" ("gpu " ++ norm ++ " is not attached to this vm"))
  let dom ← virtCall (.lookupDomainByName storedVM.name) >>= orWrap "looking up domain"
  let newSpec := { storedVM.spec with gpus := storedVM.spec.resolvedGPUs.filter (· ≠ norm) }
  redefineDomain d dom storedVM newSpec
  let updated := { storedVM with spec := newSpec, updatedAt := ← now }
  storeCall (.putVM updated) >>= orWrap "persisting vm"
  -- the state is read for a log line only
  let _ ← domainStateToVMState dom
  return updated

end Manager

end VMSmith
