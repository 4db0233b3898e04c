/-
The scheduler engine: its registrations, its slots, and the firing of a schedule.

The cron library keeps the registered entries and calls back when one is due; the
parser, the time zone database and the next due time are its own, so they are a
parameter.  A schedule's slots are a channel of its capacity.  Registering a schedule
makes it a new channel, and a fire that has looked the old one up goes on with that.

One command is one transaction of the store, one section under the engine's lock, or one
operation on a channel.
-/
import VMSmith.Types.Schedule
import VMSmith.Events.EventStore
import VMSmith.System.Store
import VMSmith.Lib.Prog

namespace VMSmith

open Go (trimSpace toLower)

/-- What the cron library and the time zone database say. -/
structure CronLib where
  /-- What is wrong with a spec, if anything. -/
  parseError : String → Option String
  /-- The name of a time zone, if there is one. -/
  loadLocation : String → Option String
  /-- When a spec is next due in a time zone, after a time. -/
  next : String → String → Nat → Nat

namespace CronLib

variable (lib : CronLib)

/-- `loadLocation`: an empty name is the local zone. -/
def location (tz : String) : Option String :=
  if trimSpace tz = "" then some "Local" else lib.loadLocation tz

/-- `ValidateSpec`. -/
def validateSpec (cronSpec timezone : String) : Except Err Unit :=
  match lib.location timezone with
  | none => .error (.api "invalid_timezone" ("invalid timezone \"" ++ timezone ++ "\""))
  | some _ =>
      match lib.parseError (trimSpace cronSpec) with
      | some e => .error (.api "invalid_cron_spec"
          ("cron_spec must be a 6-field spec with seconds (e.g. \"0 30 2 * * *\"): " ++ e))
      | none => .ok ()

end CronLib

/-- A registration with the cron instance of a time zone. -/
structure CronEntry where
  timezone : String
  spec : String
  deriving DecidableEq, Repr

/-- The entry that `Register` makes for a schedule, if it makes one. -/
def CronLib.entry (lib : CronLib) (s : ScheduleSettings) : Option CronEntry :=
  if s.enabled then
    match lib.parseError (trimSpace s.cronSpec), lib.location s.timezone with
    | none, some tz => some { timezone := tz, spec := trimSpace s.cronSpec }
    | _, _ => none
  else none

/-- The capacity `Register` gives the slots of a schedule. -/
def slotLimit (maxConcurrent : Int) : Nat := if maxConcurrent ≤ 0 then 1 else maxConcurrent.toNat

/-- How one attempt of an action ended. -/
inductive ActionResult where
  | done
  | skipped (reason : ScheduleRunSkipReason)
  | failed (e : Err)
  deriving DecidableEq, Repr

/-- A slot taken: the how manyth it was, and the limit of the stored schedule then. -/
structure Admission where
  number : Nat
  limit : Nat
  deriving DecidableEq, Repr

/-- Which write of a schedule's record it is; the store does not see this. -/
inductive ScheduleWrite where
  | patch (req : ScheduleUpdateSpec)
  | fired
  deriving DecidableEq, Repr

inductive SchedCmd where
  | getSchedule (id : String)
  | putSchedule (sched : Schedule) (why : ScheduleWrite)
  | deleteSchedule (id : String)
  | appendRun (scheduleID : String) (run : ScheduleRun)
  | register (sched : Schedule)
  | unregister (id : String)
  | semaphore (id : String)
  /-- Take a slot, if one is free. -/
  | acquire (id : String) (sem : Nat)
  | release (sem : Nat)
  | vmExists (id : String)
  | listVMs
  | act (action : ScheduleAction) (vmID : String) (scheduledTime : Nat)
  | now
  | publish (evt : Event)
  deriving DecidableEq, Repr

@[reducible] def SchedCmd.Resp : SchedCmd → Type
  | .getSchedule _ => Except Err Schedule
  | .putSchedule _ _ | .deleteSchedule _ | .appendRun _ _ => Except Err Unit
  | .register _ | .unregister _ | .release _ | .publish _ => Unit
  | .semaphore _ | .now => Nat
  | .acquire _ _ => Option Admission
  | .vmExists _ => Bool
  | .listVMs => Except Err (List VM)
  | .act _ _ _ => ActionResult

abbrev SchedM (α : Type) := Prog SchedCmd SchedCmd.Resp Err α

/-- What the world decides about one command. -/
structure SchedChoice extends Choice where
  vms : List VM := []
  result : ActionResult := .done
  deriving DecidableEq, Repr

/-- A channel of slots. -/
structure Slots where
  capacity : Nat
  taken : Nat := 0
  deriving DecidableEq, Repr

/-- A write or a deletion of a schedule's record that went through. -/
inductive ScheduleMark where
  | wrote (id : String) (why : ScheduleWrite) (lastFiredAt : Option Nat)
  | deleted (id : String)
  deriving DecidableEq, Repr

/-- The two buckets of the store and the maps of the engine; `slots` are the channels made
so far, and `history` and `admissions` what has happened. -/
structure SchedWorld where
  schedules : Bucket String Schedule
  runs : Bucket String (Bucket Nat ScheduleRun) := Bucket.empty
  entries : Bucket String CronEntry := Bucket.empty
  sems : Bucket String Nat := Bucket.empty
  slots : List Slots := []
  history : List ScheduleMark := []
  admissions : Nat := 0
  deriving DecidableEq

def defaultScheduleRunHistory : Nat := 200

namespace SchedWorld

/-- `AppendRun`: the runs of a schedule by their start, the oldest beyond the retained
history dropped. -/
def appendRun (w : SchedWorld) (scheduleID : String) (run : ScheduleRun) : SchedWorld :=
  let runs := ((w.runs.get? scheduleID).getD Bucket.empty).put run.startedAt run
  let kept := runs.drop (runs.entries.length - defaultScheduleRunHistory)
  { w with runs := w.runs.put scheduleID kept }

/-- `Register`. -/
def register (lib : CronLib) (w : SchedWorld) (sched : Schedule) : SchedWorld :=
  let w := { w with
    entries := w.entries.erase sched.id
    sems := w.sems.put sched.id w.slots.length
    slots := w.slots ++ [{ capacity := slotLimit sched.maxConcurrent }] }
  match lib.entry sched.settings with
  | none => w
  | some entry => { w with entries := w.entries.put sched.id entry }

/-- `Unregister`. -/
def unregister (w : SchedWorld) (id : String) : SchedWorld :=
  { w with entries := w.entries.erase id, sems := w.sems.erase id }

/-- The limit that the stored record of a schedule sets; without one it is the default. -/
def limit (w : SchedWorld) (id : String) : Nat :=
  slotLimit (((w.schedules.get? id).map (·.maxConcurrent)).getD 0)

def exec (lib : CronLib) : (c : SchedCmd) → SchedChoice → SchedWorld → Option (c.Resp × SchedWorld)
  | .getSchedule id, x, w => fallible x.toChoice w <|
      match w.schedules.get? id with
      | some sched => .ok (sched, w)
      | none => .error (.ext ("schedules/" ++ id ++ ": not found"))
  | .putSchedule sched why, x, w => fallible x.toChoice w (.ok ((), { w with
      schedules := w.schedules.put sched.id sched
      history := .wrote sched.id why sched.lastFiredAt :: w.history }))
  | .deleteSchedule id, x, w => fallible x.toChoice w (.ok ((), { w with
      schedules := w.schedules.erase id
      runs := w.runs.erase id
      history := .deleted id :: w.history }))
  | .appendRun id run, x, w => fallible x.toChoice w (.ok ((), w.appendRun id run))
  | .register sched, _, w => some ((), w.register lib sched)
  | .unregister id, _, w => some ((), w.unregister id)
  | .semaphore id, _, w =>
      match w.sems.get? id with
      | some sem => some (sem, w)
      | none => some (w.slots.length, { w with
          sems := w.sems.put id w.slots.length
          slots := w.slots ++ [{ capacity := 1 }] })
  | .acquire id sem, _, w =>
      match w.slots[sem]? with
      | none => none
      | some slots =>
          if slots.taken < slots.capacity then
            some (some { number := w.admissions, limit := w.limit id }, { w with
              slots := w.slots.set sem { slots with taken := slots.taken + 1 }
              admissions := w.admissions + 1 })
          else some (none, w)
  | .release sem, _, w =>
      match w.slots[sem]? with
      | none => none
      | some slots =>
          some ((), { w with slots := w.slots.set sem { slots with taken := slots.taken - 1 } })
  | .vmExists _, x, w => some (x.flag, w)
  | .listVMs, x, w => fallible x.toChoice w (.ok (x.vms, w))
  | .act _ _ _, x, w => some (x.result, w)
  | .now, x, w => some (x.nat, w)
  | .publish _, _, w => some ((), w)

end SchedWorld

/-! ### Firing -/

structure EngineConfig where
  maxRetries : Nat := 0
  deriving DecidableEq, Repr

def sched (c : SchedCmd) : SchedM c.Resp := Prog.perform c

def engineNow : SchedM Nat := sched .now

/-- `appEvent`. -/
def appEvent (type vmID actor message : String) (attributes : List (String × String)) (now : Nat) :
    Event where
  type := type
  source := "app"
  vmID := vmID
  severity := "info"
  message := message
  attributes := attributes
  actor := actor
  occurredAt := now

/-- `systemEvent`. -/
def systemEvent (type severity message : String) (attributes : List (String × String)) (now : Nat) :
    Event where
  type := type
  source := "system"
  severity := severity
  message := message
  attributes := attributes
  actor := "scheduler"
  occurredAt := now

/-- The word a reason is written as. -/
def ScheduleRunSkipReason.text : ScheduleRunSkipReason → String
  | vmNotFound => "vm_not_found"
  | vmAlreadyStopped => "vm_already_stopped"
  | vmAlreadyRunning => "vm_already_running"
  | concurrentRun => "concurrent_run"
  | catchUpSkipped => "catch_up_skipped"
  | queueFull => "queue_full"

/-- Finish a run and store it; whether that works is not asked. -/
def recordRun (run : ScheduleRun) : SchedM Unit := do
  let finished ← engineNow
  let _ ← sched (.appendRun run.scheduleID { run with finishedAt := some finished })
  return ()

def emit (evt : Nat → Event) : SchedM Unit := do
  sched (.publish (evt (← engineNow)))

/-- Record a run that is not made, and say so. -/
def recordSkip (scheduleID vmID : String) (reason : ScheduleRunSkipReason) (evt : Nat → Event) :
    SchedM Unit := do
  let started ← engineNow
  recordRun {
    scheduleID := scheduleID, vmID := vmID, startedAt := started, status := .skipped
    skipReason := some reason }
  emit evt

/-- `recordQueueFull`. -/
def recordQueueFull (scheduleID : String) : SchedM Unit :=
  recordSkip scheduleID "" .queueFull <|
    systemEvent "schedule.fire_skipped" "warn"
      ("schedule " ++ scheduleID ++ " fire dropped: worker queue full")
      [("schedule_id", scheduleID), ("skip_reason", ScheduleRunSkipReason.queueFull.text)]

/-- `vmMatchesAnyTag`. -/
def vmMatchesAnyTag (v : VM) (selector : List String) : Bool :=
  let tagset := (v.tags ++ v.spec.tags).map fun t => toLower (trimSpace t)
  selector.any (· ∈ tagset)

/-- `resolveTargets`: nothing, where the one VM the schedule is for is gone. -/
def resolveTargets (s : Schedule) : SchedM (Option (List String)) := do
  if trimSpace s.vmID ≠ "" then
    if ← sched (.vmExists s.vmID) then return some [s.vmID] else return none
  else
    match ← sched .listVMs with
    | .error _ => return some []
    | .ok all =>
        let selector := normalizeScheduleTags s.tagSelector
        let out := all.filter fun v => selector.isEmpty || vmMatchesAnyTag v selector
        return some ((out.map VM.id).insertionSort (· ≤ ·))

/-- The attempts of `runOne`, `left` of them after this one. -/
def runAttempts (s : Schedule) (vmID : String) (scheduledTime : Nat) (actor : String) :
    Nat → Nat → ScheduleRun → SchedM ScheduleRunStatus
  | left, attempt, run => do
      match ← sched (.act s.action vmID scheduledTime) with
      | .done =>
          recordRun { run with status := .success, error := "" }
          emit <| appEvent "schedule.fire_succeeded" vmID actor
            ("schedule \"" ++ s.name ++ "\" " ++ s.action.text ++ " succeeded on " ++ vmID)
            [("schedule_id", s.id), ("action", s.action.text)]
          return .success
      | .skipped reason =>
          recordRun { run with status := .skipped, skipReason := some reason }
          emit <| appEvent "schedule.fire_skipped" vmID actor
            ("schedule \"" ++ s.name ++ "\" skipped on " ++ vmID ++ ": " ++ reason.text)
            [("schedule_id", s.id), ("skip_reason", reason.text)]
          return .skipped
      | .failed e =>
          let note := "attempt " ++ toString (attempt + 1) ++ ": " ++ e.text
          let run := { run with error := if run.error = "" then note else run.error ++ "; " ++ note }
          match left with
          | left + 1 => runAttempts s vmID scheduledTime actor left (attempt + 1) run
          | 0 =>
              recordRun { run with status := .error }
              emit <| appEvent "schedule.fire_failed" vmID actor
                ("schedule \"" ++ s.name ++ "\" " ++ s.action.text ++ " failed on " ++ vmID ++ ": " ++
                  e.text)
                [("schedule_id", s.id), ("action", s.action.text), ("error", e.text)]
              return .error

/-- `runOne`. -/
def runOne (cfg : EngineConfig) (s : Schedule) (vmID : String) (scheduledTime : Nat)
    (actor : String) : SchedM ScheduleRunStatus := do
  let started ← engineNow
  runAttempts s vmID scheduledTime actor cfg.maxRetries 0
    { scheduleID := s.id, vmID := vmID, startedAt := started, status := .running }

/-- `NextFireTime`. -/
def nextFireTime (lib : CronLib) (cronSpec timezone : String) : SchedM (Option Nat) := do
  match lib.location timezone, lib.parseError (trimSpace cronSpec) with
  | some loc, none => return some (lib.next (trimSpace cronSpec) loc (← engineNow))
  | _, _ => return none

/-- `finalize`. -/
def finalize (lib : CronLib) (s : Schedule) (scheduledTime : Nat) (result : String) :
    SchedM Unit := do
  match ← sched (.getSchedule s.id) with
  | .error _ => return ()
  | .ok current =>
      let current := { current with lastFiredAt := some scheduledTime, lastResult := result }
      let next ← nextFireTime lib current.cronSpec current.timezone
      let current := match next with
        | some n => if current.enabled then { current with nextFireAt := some n } else current
        | none => current
      let _ ← sched (.putSchedule current .fired)
      return ()

/-- The result that is kept of a fire. -/
def fireResult (statuses : List ScheduleRunStatus) : String :=
  let anyErr := ScheduleRunStatus.error ∈ statuses
  let anySuccess := ScheduleRunStatus.success ∈ statuses
  if anyErr ∧ anySuccess then "partial"
  else if anyErr then "error"
  else if ¬ anySuccess ∧ statuses = [] then "no_targets"
  else "success"

/-- The runs of a fire, one target after the other. -/
def runTargets (cfg : EngineConfig) (s : Schedule) (scheduledTime : Nat) (actor : String) :
    List String → SchedM (List ScheduleRunStatus)
  | [] => return []
  | vmID :: targets => do
      let status ← runOne cfg s vmID scheduledTime actor
      let statuses ← runTargets cfg s scheduledTime actor targets
      return status :: statuses

/-- What `fire` does in its slot. -/
def fireInSlot (lib : CronLib) (cfg : EngineConfig) (s : Schedule) (scheduledTime : Nat)
    (actor : String) : SchedM Unit := do
  emit <| appEvent "schedule.fired" "" actor ("schedule \"" ++ s.name ++ "\" fired")
    [("schedule_id", s.id), ("action", s.action.text)]
  match ← resolveTargets s with
  | none =>
      recordSkip s.id s.vmID .vmNotFound <|
        appEvent "schedule.fire_skipped" s.vmID actor
          ("schedule \"" ++ s.name ++ "\" skipped: target VM not found")
          [("schedule_id", s.id), ("skip_reason", ScheduleRunSkipReason.vmNotFound.text)]
      finalize lib s scheduledTime "error: vm_not_found"
  | some targets =>
      let statuses ← runTargets cfg s scheduledTime actor targets
      finalize lib s scheduledTime (fireResult statuses)

/-- `fire`. -/
def fire (lib : CronLib) (cfg : EngineConfig) (scheduleID : String) (scheduledTime : Nat)
    (actor : String) : SchedM Unit := do
  match ← sched (.getSchedule scheduleID) with
  | .error _ => return ()
  | .ok s =>
      let sem ← sched (.semaphore scheduleID)
      match ← sched (.acquire scheduleID sem) with
      | some _ =>
          fireInSlot lib cfg s scheduledTime actor
          sched (.release sem)
      | none =>
          recordSkip scheduleID "" .concurrentRun <|
            appEvent "schedule.fire_skipped" "" actor
              ("schedule \"" ++ s.name ++ "\" skipped: previous run still in progress")
              [("schedule_id", scheduleID), ("skip_reason", ScheduleRunSkipReason.concurrentRun.text)]

/-- `RunNow`. -/
def runNow (lib : CronLib) (cfg : EngineConfig) (id actor : String) : SchedM Unit := do
  match ← sched (.getSchedule id) with
  | .error e => .throw e
  | .ok _ =>
      let actor := if trimSpace actor = "" then "api" else actor
      fire lib cfg id (← engineNow) actor

end VMSmith
