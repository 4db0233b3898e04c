/-
The operations on stored records, interleaved.

Each one reads a record in one transaction and writes all of it in another, with
libvirt work between the two.  `RecordField` names the parts of a record the
operations change, and `sets` says which of them an operation is called to change;
everything else it writes back as it read it.

Nothing but the store is held still: libvirt, the network, the files and the clock
may change between any two steps.
-/
import VMSmith.Lib.Pool
import VMSmith.VM.OffStore

namespace VMSmith

inductive RecordOp where
  /-- The state persister takes an event. -/
  | apply (evt : Event)
  | start (id : String)
  | stop (id : String)
  | forceStop (id : String)
  | restart (id : String)
  | reboot (id : String)
  | suspend (id : String)
  | resume (id : String)
  | update (id : String) (patch : VMUpdateSpec)
  | moveDisk (id location : String)
  | attachGPU (id pciAddr : String) (force : Bool)
  | detachGPU (id pciAddr : String)
  | delete (id : String)
  deriving DecidableEq, Repr

/-- The parts of a record that operations change. -/
inductive RecordField where
  | state
  | description
  | specDescription
  | tags
  | specTags
  | cpus
  | ramMB
  | diskGB
  | natIP
  | autoStart
  | locked
  | clockOffset
  | diskBus
  | nicModel
  | installISO
  | vnc
  | gpus
  | disk
  deriving DecidableEq, Repr

/-- What a field holds. -/
inductive FieldValue where
  | state (v : VMState)
  | text (s : String)
  | texts (ss : List String)
  | number (n : Nat)
  | flag (b : Bool)
  | place (path : HostPath) (location : String)
  deriving DecidableEq, Repr

namespace RecordField

def all : List RecordField :=
  [state, description, specDescription, tags, specTags, cpus, ramMB, diskGB, natIP, autoStart,
    locked, clockOffset, diskBus, nicModel, installISO, vnc, gpus, disk]

theorem mem_all (f : RecordField) : f ∈ all := by cases f <;> decide

/-- What a record holds there. -/
def value : RecordField → VM → FieldValue
  | state, vm => .state vm.state
  | description, vm => .text vm.description
  | specDescription, vm => .text vm.spec.description
  | tags, vm => .texts vm.tags
  | specTags, vm => .texts vm.spec.tags
  | cpus, vm => .number vm.spec.cpus
  | ramMB, vm => .number vm.spec.ramMB
  | diskGB, vm => .number vm.spec.diskGB
  | natIP, vm => .texts [vm.spec.natStaticIP, vm.spec.natGateway, vm.ip]
  | autoStart, vm => .flag vm.spec.autoStart
  | locked, vm => .flag vm.spec.locked
  | clockOffset, vm => .text vm.spec.clockOffset
  | diskBus, vm => .text vm.spec.diskBus
  | nicModel, vm => .text vm.spec.nicModel
  | installISO, vm => .text vm.spec.installISO
  | vnc, vm => .texts [vm.vncPasswordHash, vm.vncPasswordEnc, vm.spec.vncPassword]
  | gpus, vm => .texts vm.spec.gpus
  | disk, vm => .place vm.diskPath vm.spec.diskLocation

end RecordField

/-- What a patch is meant to change.  A full update also brings the spec's own copies of
the description and the tags in line with the record's. -/
def VMUpdateSpec.sets (patch : VMUpdateSpec) : RecordField → Bool
  | .description => patch.description ≠ ""
  | .specDescription => true
  | .tags => patch.tags.isSome
  | .specTags => true
  | .cpus => 0 < patch.cpus
  | .ramMB => 0 < patch.ramMB
  | .diskGB => 0 < patch.diskGB
  | .natIP => patch.natStaticIP ≠ ""
  | .autoStart => patch.autoStart.isSome
  | .locked => patch.locked.isSome
  | .clockOffset => patch.clockOffset.isSome
  | .diskBus => patch.diskBus.isSome
  | .nicModel => patch.nicModel.isSome
  | .installISO => patch.installISO.isSome
  | .vnc => patch.vncPassword.isSome
  | _ => false

namespace RecordOp

/-- The VM the operation is about. -/
def target : RecordOp → String
  | apply evt => evt.vmID
  | start id | stop id | forceStop id | restart id | reboot id | suspend id | resume id
  | update id _ | moveDisk id _ | attachGPU id _ _ | detachGPU id _ | delete id => id

/-- The fields the operation sets. -/
def sets : RecordOp → RecordField → Bool
  | apply _, f | start _, f | stop _, f | forceStop _, f | restart _, f | suspend _, f
  | resume _, f => f = .state
  | reboot _, _ | delete _, _ => false
  | update _ patch, f => patch.sets f
  | moveDisk _ _, f => f = .disk
  | attachGPU _ _ _, f | detachGPU _ _, f => f = .gpus

/-- Run for the effect. -/
def forget {α : Type} (p : M α) : M Unit := do let _ ← p

/-- The operation may write this record, after it has read that one. -/
def Keeps (op : RecordOp) (read written : VM) : Prop :=
  written.id = read.id ∧ ∀ f, op.sets f = false → f.value written = f.value read

def body (d : Daemon) : RecordOp → M Unit
  | apply evt => applyEvent evt
  | start id => Manager.start id
  | stop id => Manager.stop id
  | forceStop id => Manager.forceStop id
  | restart id => Manager.restart id
  | reboot id => Manager.reboot id
  | suspend id => Manager.suspend id
  | resume id => Manager.resume id
  | update id patch => forget (Manager.update d id patch)
  | moveDisk id location => forget (Manager.moveDisk d id location)
  | attachGPU id pciAddr force => forget (Manager.attachGPU d id pciAddr force)
  | detachGPU id pciAddr => forget (Manager.detachGPU d id pciAddr)
  | delete id => Manager.delete id

end RecordOp

/-- What an operation was answered. -/
abbrev CmdLog := Prog.Log Cmd Cmd.Resp

/-- The record the operation read last. -/
def lastRead : CmdLog → Option VM
  | [] => none
  | ⟨.store (.getVM _), .ok vm⟩ :: _ => some vm
  | _ :: log => lastRead log

/-- The record the operation wrote last. -/
def lastWrite : CmdLog → Option VM
  | [] => none
  | ⟨.store (.putVM vm), .ok ()⟩ :: _ => some vm
  | _ :: log => lastWrite log

/-- The record was deleted. -/
def deleted : CmdLog → Bool
  | [] => false
  | ⟨.store (.deleteVM _), .ok ()⟩ :: _ => true
  | _ :: log => deleted log

/-- The operations under way over one world. -/
abbrev RecordSys := Pool RecordOp Cmd Cmd.Resp Err Unit World

abbrev RecordLabel := PoolLabel RecordOp Choice World

namespace RecordSys

/-- Everything but the store becomes anything. -/
def drift (e w : World) : Option World := some { e with store := w.store }

/-- One step of the system. -/
def step (d : Daemon) : RecordSys → RecordLabel → Option RecordSys :=
  Pool.step (RecordOp.body d) World.exec drift

end RecordSys

end VMSmith
