/-
A VM whose GPUs are attached and detached, one call after another.

Each call runs alone, and any of its steps may fail.  The record names the GPUs that were
asked for, the definition has the devices they were expanded to.
-/
import VMSmith.Host.GPU
import VMSmith.VM.FailingCalls

namespace VMSmith

/-- The daemon on a host with this sysfs. -/
def Daemon.on (d : Daemon) (s : Sysfs) : Daemon :=
  { d with host := { d.host with expandIOMMUGroups := s.expandIOMMUGroups } }

/-- A call on the GPUs of a VM. -/
inductive GPUCall where
  | attach (pciAddr : String) (force : Bool)
  | detach (pciAddr : String)
  deriving DecidableEq, Repr

namespace GPUCall

def run (d : Daemon) (id : String) : GPUCall → M VM
  | attach pciAddr force => Manager.attachGPU d id pciAddr force
  | detach pciAddr => Manager.detachGPU d id pciAddr

/-- The address the call is about, in canonical form. -/
def addr : GPUCall → String
  | attach pciAddr _ | detach pciAddr => normalizePCIAddress pciAddr

/-- Whether the GPU is attached where it should not be, or the other way round. -/
def Misplaced (spec : VMSpec) : GPUCall → Prop
  | attach pciAddr _ => normalizePCIAddress pciAddr ∈ spec.resolvedGPUs
  | detach pciAddr => normalizePCIAddress pciAddr ∉ spec.resolvedGPUs

/-- The spec with the GPU in it, or without it. -/
def newSpec (spec : VMSpec) : GPUCall → VMSpec
  | attach pciAddr _ => { spec with gpus := spec.resolvedGPUs ++ [normalizePCIAddress pciAddr] }
  | detach pciAddr =>
      { spec with gpus := spec.resolvedGPUs.filter (· ≠ normalizePCIAddress pciAddr) }

/-- Whether devices are attached to a running domain. -/
def forced : GPUCall → Bool
  | attach _ force => force
  | detach _ => true

end GPUCall

/-- The definition a record with a new spec stands for, under a UUID. -/
def definitionFor (d : Daemon) (vm : VM) (spec : VMSpec) (uuid : Option Nat) : Except Err DomainXML :=
  (withStoredVNC d vm.vncPasswordEnc
    { DomainParams.render d spec vm.diskPath vm.natMAC with uuid := uuid }).bind
      DomainParams.generateDomainXML

/-- The host devices in the definition of a VM's domain. -/
def World.hostdevs (w : World) (id : String) : Option (List PCIAddress) := do
  let dom ← w.domainFor id
  let xml ← dom.definition
  some xml.hostdevs

/-- The definition has the devices that the GPUs in the record are expanded to. -/
def GPUsInStep (s : Sysfs) (id : String) (w : World) : Prop :=
  ∃ vm devs, w.store.vms.get? id = some vm ∧ w.hostdevs id = some devs ∧
    (s.expandIOMMUGroups vm.spec.gpus).mapM DomainParams.gpuHostdevXML = .ok devs

/-- The world as daemon and libvirt keep it, around a VM. -/
structure World.Kept (w : World) (id : String) : Prop where
  distinct : w.virt.Distinct
  keyed : w.store.Keyed
  named : ∀ vm, w.store.vms.get? id = some vm → vm.spec.name = vm.name

/-- The call is turned away before the definition is replaced: by its own checks, or because
a step up to there fails. -/
def GPUCall.TurnedAway (d : Daemon) (id : String) (w : World) (F : Failing) (call : GPUCall) : Prop :=
  call.addr = "" ∨ (F (.store (.getVM id))).isSome = true ∨
    ∀ vm, w.store.vms.get? id = some vm →
      call.Misplaced vm.spec ∨ (F (.virt (.lookupDomainByName vm.name))).isSome = true ∨
        ∀ dom, w.virt.findName? vm.name = some dom →
          (call.forced = false ∧ dom.state = .running ∧ F (.virt (.getState dom.uuid)) = none) ∨
            (F (.virt (.getUUIDString dom.uuid))).isSome = true ∨
              ∀ xml, definitionFor d vm (call.newSpec vm.spec) (some dom.uuid) = .ok xml →
                (F (.virt (.domainDefineXML xml))).isSome = true

/-- Once the definition is replaced no step fails: neither a live attachment nor the writing
of the record. -/
def GPUCall.Finishes (F : Failing) : GPUCall → Prop
  | attach _ _ => (∀ dom addr, F (.virt (.attachDevice dom addr)) = none) ∧
      ∀ vm, F (.store (.putVM vm)) = none
  | detach _ => ∀ vm, F (.store (.putVM vm)) = none

/-- The worlds some calls lead to, each call being turned away or finishing. -/
inductive GPURun (d : Daemon) (id : String) : World → World → Prop
  | refl (w : World) : GPURun d id w w
  | call {w u v : World} {F : Failing} {call : GPUCall} {res : Except Err VM}
      (hF : call.TurnedAway d id w F ∨ call.Finishes F)
      (hrun : Prog.Runs (World.under F) (call.run d id) w res u) (hrest : GPURun d id u v) :
      GPURun d id w v

end VMSmith
