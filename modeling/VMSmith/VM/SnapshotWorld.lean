/-
A world in which the snapshots of VMs are taken, listed and deleted.

Libvirt stamps a snapshot with the second on its own clock, and some of the snapshots it does not
describe when asked.  Otherwise any command may be refused, or none.
-/
import VMSmith.Scheduler.SnapshotSys

namespace VMSmith

/-- The terms on which libvirt and the store answer. -/
structure SnapshotTerms where
  /-- The snapshots that are described. -/
  described : String → Bool := fun _ => true
  /-- The second on libvirt's clock. -/
  second : Nat := 0
  /-- Commands may be refused. -/
  faults : Bool := true

namespace SnapshotTerms

/-- How a command may be answered. -/
def fits (q : SnapshotTerms) : Cmd → Choice → Bool
  | .virt (.snapshotXML _ name _), x => x.fail.isNone == q.described name
  | .virt (.createSnapshot _ _ _), x => x.nat == q.second && (q.faults || x.fail.isNone)
  | _, x => q.faults || x.fail.isNone

/-- How a snapshot is listed, its tags apart. -/
def listed (q : SnapshotTerms) (vmID : String) (y : SnapshotXML) : Snapshot :=
  Manager.snapshotEntry vmID [] y.name
    (if q.described y.name then .ok y else .error (.ext "Domain snapshot not found"))

/-- Those of some snapshots that are listed as older than `y`. -/
def older (q : SnapshotTerms) (vmID : String) (y : SnapshotXML) (ys : List SnapshotXML) : List SnapshotXML :=
  ys.filter fun z => (q.listed vmID z).before (q.listed vmID y)

end SnapshotTerms

structure SnapshotWorld where
  world : World
  terms : SnapshotTerms

namespace SnapshotWorld

/-- One command. -/
def exec (c : Cmd) (x : Choice) (t : SnapshotWorld) : Option (c.Resp × SnapshotWorld) :=
  if t.terms.fits c x then (World.exec c x t.world).map fun (r, w) => (r, { t with world := w }) else none

abbrev sem : Prog.Sem Cmd Cmd.Resp SnapshotWorld := Prog.Sem.ofExec exec

/-- The snapshots of a VM, in the order they were taken. -/
def snapshots (t : SnapshotWorld) (vmID : String) : List SnapshotXML :=
  ((t.world.domainFor vmID).map Domain.snapshots).getD []

end SnapshotWorld

end VMSmith
