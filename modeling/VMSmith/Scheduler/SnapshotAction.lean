/-
The action of a schedule that makes snapshots.

It is given the manager itself, not the quota manager that stands between the manager and the
API: the only limit it knows is the schedule's retention count, over the snapshots whose names
begin with the schedule's.
-/
import VMSmith.VM.Snapshots
import VMSmith.Scheduler.Engine
import VMSmith.Lib.GoTime

namespace VMSmith

open Go (trimSpace toLower)

namespace Scheduler

/-- `sanitizeName`. -/
def sanitizeName (name : String) : String :=
  let safe := fun c : Char => c.isLower || c.isDigit || c == '.' || c == '_' || c == '-'
  let out := String.ofList ((toLower (trimSpace name)).toList.map fun c => if safe c then c else '-')
  if out = "" then "schedule" else out

/-- `snapshotPrefix`. -/
def snapshotPrefix (s : Schedule) : String := "auto-" ++ sanitizeName s.name ++ "-"

/-- Older, or made in the same second under a smaller name. -/
def olderOrNamedFirst (a b : Snapshot) : Bool :=
  if a.createdAt = b.createdAt then a.name < b.name else a.before b

/-- The order of `sort.Slice` on a schedule's own snapshots. -/
abbrev OwnedFirst := Go.SliceSort olderOrNamedFirst

variable (ownedFirst : OwnedFirst)

/-- Delete these until one cannot be. -/
def deleteInTurn (vmID : String) : List Snapshot → M Unit
  | [] => return ()
  | snap :: snaps => do
      Manager.deleteSnapshot vmID snap.name
      deleteInTurn vmID snaps

/-- `trimSnapshots`. -/
def trimSnapshots (s : Schedule) (vmID : String) : M Unit := do
  let snaps ← Manager.listSnapshots vmID
  let owned := snaps.filter fun snap => Go.hasPrefix snap.name (snapshotPrefix s)
  onlyIf (¬ (owned.length : Int) ≤ s.retentionCount) <|
    deleteInTurn vmID ((ownedFirst.sort owned).take ((owned.length : Int) - s.retentionCount).toNat)

/-- What a schedule asks for, at this time. -/
def autoSnapshot (s : Schedule) (scheduledTime : Nat) : SnapshotSpec where
  name := snapshotPrefix s ++ Go.utcStamp scheduledTime
  description := "auto snapshot from schedule " ++ s.name.quote
  tags := ["auto", "schedule"]

/-- `snapshotAction`: what becomes of the older snapshots does not change how it ends. -/
def snapshotAction (s : Schedule) (vmID : String) (scheduledTime : Nat) : M ActionResult := do
  match ← (Manager.get vmID).attempt with
  | .error _ => return .skipped .vmNotFound
  | .ok _ =>
      match ← (Manager.createSnapshot vmID (autoSnapshot s scheduledTime)).attempt with
      | .error e => return .failed e
      | .ok _ => do
          onlyIf (0 < s.retentionCount) do
            let _ ← (trimSnapshots ownedFirst s vmID).attempt
          return .done

end Scheduler

end VMSmith
