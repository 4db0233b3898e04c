/-
Who makes snapshots, and a daemon in which they do.

The API handler has the quota manager, the scheduler the manager.  One creation runs from its
first command to its last.  Once the snapshot is taken, the older ones may or may not be listed,
and what is then deleted can be.  Between two creations anything may happen.
-/
import VMSmith.Scheduler.SnapshotAction
import VMSmith.Lib.Run

namespace VMSmith

/-- What libvirt keeps distinct. -/
structure VirtState.Distinct (s : VirtState) : Prop where
  uuids : (s.domains.map Domain.uuid).Nodup
  names : (s.domains.map Domain.name).Nodup
  snapshots : ∀ d ∈ s.domains, (d.snapshots.map SnapshotXML.name).Nodup

/-- A world as libvirt keeps it. -/
structure KeptWorld extends World where
  distinct : toWorld.virt.Distinct

/-- The domain of a stored VM. -/
def World.domainFor (w : World) (vmID : String) : Option Domain :=
  (w.store.vms.get? vmID).bind fun vm => w.virt.findName? vm.name

/-- The names of the snapshots of a VM. -/
def World.snapshotNames (w : World) (vmID : String) : List String :=
  ((w.domainFor vmID).map fun d => d.snapshots.map SnapshotXML.name).getD []

/-- A world in which a snapshot is being made. -/
structure Making where
  world : World
  /-- Snapshots can be listed once it has been taken. -/
  listable : Bool := true
  /-- It has been taken. -/
  taken : Bool := false

namespace Making

/-- What the deletion of a snapshot consists of. -/
def deletes : Cmd → Bool
  | .store (.getVM _) | .virt (.lookupDomainByName _) | .virt (.snapshotLookup _ _)
  | .virt (.deleteSnapshot _ _) => true
  | _ => false

def lists : Cmd → Bool
  | .virt (.listSnapshots _) => true
  | _ => false

/-- A snapshot is taken. -/
def takes : (c : Cmd) → c.Resp → Bool
  | .virt (.createSnapshot _ _ _), .ok () => true
  | _, _ => false

/-- Whether a command may fail. -/
def mayFail (m : Making) (c : Cmd) : Bool := !m.taken || (!deletes c && !(lists c && m.listable))

/-- Whether a command may do what it is asked. -/
def maySucceed (m : Making) (c : Cmd) : Bool := !m.taken || !lists c || m.listable

/-- One command. -/
def exec (c : Cmd) (x : Choice) (m : Making) : Option (c.Resp × Making) :=
  if if x.fail.isSome then m.mayFail c else m.maySucceed c then
    (World.exec c x m.world).map fun (r, w) => (r, { m with world := w, taken := m.taken || takes c r })
  else none

abbrev sem : Prog.Sem Cmd Cmd.Resp Making := Prog.Sem.ofExec exec

end Making

/-- Who makes a snapshot. -/
inductive SnapshotCaller where
  | api (req : SnapshotSpec)
  | schedule (s : Schedule) (scheduledTime : Nat)
  deriving DecidableEq, Repr

/-- The daemon's settings, and its sorting. -/
structure SnapshotConfig where
  maxSnapshotsPerVM : Int
  oldestFirst : QuotaManager.OldestFirst
  ownedFirst : Scheduler.OwnedFirst

/-- Make a snapshot, and say whether one was made. -/
def SnapshotCaller.body (cfg : SnapshotConfig) (vmID : String) : SnapshotCaller → M Bool
  | api req => do
      let _ ← Api.createSnapshot cfg.oldestFirst cfg.maxSnapshotsPerVM vmID req
      return true
  | schedule s scheduledTime => do
      return (← Scheduler.snapshotAction cfg.ownedFirst s vmID scheduledTime) = .done

structure SnapshotSys where
  world : World
  /-- The VM a snapshot has just been made of. -/
  made : Option String := none

inductive SnapshotLabel where
  /-- A creation, with what its commands are answered. -/
  | create (vmID : String) (caller : SnapshotCaller) (listable : Bool) (answers : List Choice)
  /-- Whatever else happens. -/
  | other (w : KeptWorld)

namespace SnapshotSys

def step (cfg : SnapshotConfig) (s : SnapshotSys) : SnapshotLabel → Option SnapshotSys
  | .create vmID caller listable answers =>
      (Prog.run Making.exec (caller.body cfg vmID) answers { world := s.world, listable := listable }).map
        fun (res, m) => { world := m.world, made := if res = .ok true then some vmID else none }
  | .other w => some { world := w.toWorld }

end SnapshotSys

end VMSmith
