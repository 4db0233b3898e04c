/-
Schedules and the records of their runs.

The settings of a schedule are what a request can set; the rest is kept by the daemon.
`ScheduleUpdateSpec` is a patch, where an absent field is no change.
-/
import VMSmith.Types.VM
import Mathlib.Data.List.Dedup
import Mathlib.Data.List.Sort

namespace VMSmith

open Go (trimSpace toLower)

inductive ScheduleAction where
  | snapshot
  | start
  | stop
  | restart
  | forceStop
  | reboot
  | suspend
  | resume
  deriving DecidableEq, Repr

/-- The word an action is written as. -/
def ScheduleAction.text : ScheduleAction → String
  | snapshot => "snapshot"
  | start => "start"
  | stop => "stop"
  | restart => "restart"
  | forceStop => "force-stop"
  | reboot => "reboot"
  | suspend => "suspend"
  | resume => "resume"

/-- `IsValidScheduleAction`. -/
def ScheduleAction.ofText (word : String) : Option ScheduleAction :=
  [snapshot, start, stop, restart, forceStop, reboot, suspend, resume].find? (·.text = word)

inductive ScheduleCatchUpPolicy where
  | skip
  | runOnce
  | runAll
  deriving DecidableEq, Repr

/-- `IsValidCatchUpPolicy`: an empty word is the default. -/
def ScheduleCatchUpPolicy.ofText (word : String) : Option ScheduleCatchUpPolicy :=
  if word = "" ∨ word = "skip" then some .skip
  else if word = "run_once" then some .runOnce
  else if word = "run_all" then some .runAll
  else none

/-- `NormalizeScheduleTags`. -/
def normalizeScheduleTags (tags : List String) : List String :=
  ((tags.map fun t => toLower (trimSpace t)).filter (· ≠ "")).dedup.insertionSort (· ≤ ·)

/-- What a request can set. -/
structure ScheduleSettings where
  name : String
  vmID : String := ""
  tagSelector : List String := []
  action : ScheduleAction
  cronSpec : String
  timezone : String := ""
  enabled : Bool := true
  catchUpPolicy : ScheduleCatchUpPolicy := .skip
  maxConcurrent : Int := 0
  retentionCount : Int := 0
  params : List (String × String) := []
  deriving DecidableEq, Repr

structure Schedule extends ScheduleSettings where
  id : String
  createdAt : Nat := 0
  updatedAt : Nat := 0
  lastFiredAt : Option Nat := none
  lastResult : String := ""
  nextFireAt : Option Nat := none
  deriving DecidableEq, Repr

abbrev Schedule.settings (sched : Schedule) : ScheduleSettings := sched.toScheduleSettings

structure ScheduleUpdateSpec where
  name : Option String := none
  vmID : Option String := none
  tagSelector : Option (List String) := none
  action : Option String := none
  cronSpec : Option String := none
  timezone : Option String := none
  enabled : Option Bool := none
  catchUpPolicy : Option String := none
  maxConcurrent : Option Int := none
  retentionCount : Option Int := none
  params : Option (List (String × String)) := none
  deriving DecidableEq, Repr

/-- The settings with the patch's fields in their places. -/
def ScheduleUpdateSpec.apply (req : ScheduleUpdateSpec) (s : ScheduleSettings) : ScheduleSettings where
  name := (req.name.map trimSpace).getD s.name
  vmID := (req.vmID.map trimSpace).getD s.vmID
  tagSelector := (req.tagSelector.map normalizeScheduleTags).getD s.tagSelector
  action := (req.action.bind ScheduleAction.ofText).getD s.action
  cronSpec := (req.cronSpec.map trimSpace).getD s.cronSpec
  timezone := (req.timezone.map trimSpace).getD s.timezone
  enabled := req.enabled.getD s.enabled
  catchUpPolicy := (req.catchUpPolicy.bind ScheduleCatchUpPolicy.ofText).getD s.catchUpPolicy
  maxConcurrent := req.maxConcurrent.getD s.maxConcurrent
  retentionCount := req.retentionCount.getD s.retentionCount
  params := req.params.getD s.params

inductive ScheduleRunStatus where
  | running
  | success
  | error
  | skipped
  deriving DecidableEq, Repr

inductive ScheduleRunSkipReason where
  | vmNotFound
  | vmAlreadyStopped
  | vmAlreadyRunning
  | concurrentRun
  | catchUpSkipped
  | queueFull
  deriving DecidableEq, Repr

structure ScheduleRun where
  scheduleID : String
  vmID : String := ""
  startedAt : Nat
  finishedAt : Option Nat := none
  status : ScheduleRunStatus
  error : String := ""
  skipReason : Option ScheduleRunSkipReason := none
  deriving DecidableEq, Repr

end VMSmith
