/-
The calls that run `qemu-img` on a VM's disk, and those that start, suspend and resume VMs.

Any number of calls may be under way, on any VMs, each answered command by command.  A call
whose next command runs `qemu-img` waits for it from the time it is spawned until it ends, and
anything may happen in between.  Guests may stop, crash, sleep and wake up by themselves.
-/
import VMSmith.Api.Export
import VMSmith.Lib.Pool
import VMSmith.System.Asleep
import VMSmith.VM.Create

namespace VMSmith

inductive DiskCall where
  | clone (sourceID newName : String)
  | update (id : String) (patch : VMUpdateSpec)
  | exportOVA (id : String)
  | start (id : String)
  | suspend (id : String)
  | resume (id : String)
  deriving DecidableEq, Repr

def DiskCall.body (d : Daemon) : DiskCall → M Unit
  | .clone sourceID newName => do
      let _ ← Manager.clone d sourceID newName
      return ()
  | .update id patch => do
      let _ ← Manager.update d id patch
      return ()
  | .exportOVA id => Api.exportVMOVA id
  | .start id => Manager.start id
  | .suspend id => Manager.suspend id
  | .resume id => Manager.resume id

/-- The disk a command has `qemu-img` work on. -/
def Cmd.qemuImg : Cmd → Option HostPath
  | .file (.convertDisk source _) => some source
  | .file (.resizeDisk path _) => some path
  | _ => none

/-! ### What a call has been answered -/

structure DiskNote where
  /-- The record that was read. -/
  record : Option VM := none
  /-- The domain that was looked up, and its UUID as it was read. -/
  dom : Option Nat := none
  uuid : Option Nat := none
  /-- The domain has been taken for shut off, and `qemu-img` has not run yet. -/
  settled : Bool := false
  deriving DecidableEq, Repr

namespace DiskCall

/-- An update that grows the disk of the record. -/
def grows (record : Option VM) : DiskCall → Bool
  | .update _ patch => record.any fun vm => vm.spec.diskGB < patch.diskGB
  | _ => false

/-- A look at the domain's state after which `qemu-img` is to run. -/
def passes (record : Option VM) (op : DiskCall) (state : Except Err DomainState) : Bool :=
  match op with
  | .clone _ _ => state.toOption.any (· ≠ .running)
  | .update _ _ => op.grows record && state.toOption ≠ some .running
  | .exportOVA _ => state.toOption = some .shutoff
  | _ => false

/-- Without a domain to look at, an export goes by the record. -/
def believes (record : Option VM) : DiskCall → Bool
  | .exportOVA _ => record.any fun vm => vm.state = .stopped
  | _ => false

end DiskCall

/-- What one answer adds. -/
def DiskNote.add (op : DiskCall) (v : DiskNote) : (c : Cmd) → c.Resp → DiskNote
  | .store (.getVM _), .ok vm => { v with record := some vm }
  | .virt (.lookupDomainByName _), .ok dom => { v with dom := some dom }
  | .virt (.lookupDomainByName _), .error _ => { v with settled := op.believes v.record }
  | .virt (.getUUIDString _), uuid => { v with uuid := uuid }
  | .virt (.getState _), state => { v with settled := op.passes v.record state }
  | .virt (.waitForShutoff _), true => { v with settled := op.grows v.record }
  | .file (.convertDisk _ _), _ => { v with settled := false }
  | .file (.resizeDisk _ _), _ => { v with settled := false }
  | _, _ => v

/-! ### The system -/

abbrev DiskThread := Thread DiskCall Cmd Cmd.Resp Err Unit

namespace DiskThread

def note (t : DiskThread) : DiskNote := Prog.Log.account (DiskNote.add t.op) {} t.log

/-- The disk the next command has `qemu-img` work on. -/
def qemuImg (t : DiskThread) : Option HostPath :=
  match t.prog with
  | .call c _ => c.qemuImg
  | _ => none

end DiskThread

abbrev DiskPool := Pool DiskCall Cmd Cmd.Resp Err Unit World

structure DiskSys where
  pool : DiskPool
  /-- The calls whose `qemu-img` is running. -/
  busy : List Nat := []

inductive DiskLabel where
  | call (op : DiskCall)
  /-- The call at this place has its next command answered. -/
  | step (i : Nat) (x : Choice)
  /-- The call at this place spawns `qemu-img`. -/
  | spawn (i : Nat)
  | guest (dom : Nat) (state : DomainState)
  deriving DecidableEq, Repr

namespace DiskSys

variable (d : Daemon)

/-- The call at this place is to run `qemu-img`. -/
def images (s : DiskSys) (i : Nat) : Bool := s.pool.threads[i]?.any fun t => (DiskThread.qemuImg t).isSome

def poolStep (s : DiskSys) (l : PoolLabel DiskCall Choice (Nat × DomainState)) : Option DiskPool :=
  Pool.step (DiskCall.body d) World.exec
    (fun e w => (w.virt.guestMove e.1 e.2).map fun virt => { w with virt := virt }) s.pool l

def step (s : DiskSys) : DiskLabel → Option DiskSys
  | .call op => (s.poolStep d (.call op)).map fun pool => { s with pool := pool }
  | .step i x =>
      if s.images i ∧ i ∉ s.busy then none
      else (s.poolStep d (.step i x)).map fun pool => { pool := pool, busy := s.busy.filter (· ≠ i) }
  | .spawn i => if s.images i ∧ i ∉ s.busy then some { s with busy := i :: s.busy } else none
  | .guest dom state => (s.poolStep d (.env (dom, state))).map fun pool => { s with pool := pool }

def init (w : World) : DiskSys := { pool := { world := w } }

end DiskSys

end VMSmith
