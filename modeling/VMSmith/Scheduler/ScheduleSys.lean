/-
The scheduler at work: fires and requests, interleaved.

The engine starts with the stored schedules registered.  From then on schedules are fired,
by the cron library, by hand or by the catch-up, and changed and deleted by requests, in
any order of their steps.
-/
import VMSmith.Lib.Pool
import VMSmith.Api.ScheduleHandlers

namespace VMSmith

inductive ScheduleOp where
  /-- A worker or the catch-up fires a schedule. -/
  | fire (id : String) (scheduledTime : Nat) (actor : String)
  | runNow (id actor : String)
  /-- A cron entry was due and the worker queue was full. -/
  | queueFull (id : String)
  | update (id : String) (req : ScheduleUpdateSpec)
  | delete (id : String)
  deriving DecidableEq, Repr

namespace ScheduleOp

/-- The schedule a call is about. -/
def target : ScheduleOp → String
  | fire id _ _ | runNow id _ | queueFull id | update id _ | delete id => id

def isRequest : ScheduleOp → Bool
  | update _ _ | delete _ => true
  | _ => false

def body (lib : CronLib) (cfg : EngineConfig) : ScheduleOp → SchedM Unit
  | .fire id scheduledTime actor => VMSmith.fire lib cfg id scheduledTime actor
  | .runNow id actor => VMSmith.runNow lib cfg id actor
  | .queueFull id => recordQueueFull id
  | .update id req => do
      let _ ← Api.updateSchedule lib id req
      return ()
  | .delete id => Api.deleteSchedule id

end ScheduleOp

/-! ### What a call has been answered -/

structure ScheduleView where
  /-- The record it has read last, and the ID it asked for. -/
  read : Option (String × Schedule) := none
  /-- It has written a patched record. -/
  wrote : Bool := false
  /-- It has deleted the record. -/
  dropped : Bool := false
  /-- The schedule it has written or deleted without telling the engine yet. -/
  unsettled : Option String := none
  /-- The channel it is to take a slot of, or has. -/
  looked : Option Nat := none
  /-- The slot it has. -/
  held : Option Admission := none
  deriving DecidableEq, Repr

/-- What one answer adds. -/
def ScheduleView.add (v : ScheduleView) : (c : SchedCmd) → c.Resp → ScheduleView
  | .getSchedule id, .ok s => { v with read := some (id, s) }
  | .putSchedule s (.patch _), .ok _ => { v with wrote := true, unsettled := some s.id }
  | .deleteSchedule id, .ok _ => { v with dropped := true, unsettled := some id }
  | .register _, _ => { v with unsettled := none }
  | .unregister _, _ => { v with unsettled := none }
  | .semaphore _, sem => { v with looked := some sem }
  | .acquire _ _, some a => { v with held := some a }
  | .acquire _ _, none => { v with looked := none }
  | .release _, _ => { v with looked := none, held := none }
  | _, _ => v

abbrev ScheduleLog := Prog.Log SchedCmd SchedCmd.Resp

def ScheduleLog.view (log : ScheduleLog) : ScheduleView := Prog.Log.account ScheduleView.add {} log

abbrev SchedSys := Pool ScheduleOp SchedCmd SchedCmd.Resp Err Unit SchedWorld

abbrev SchedLabel := PoolLabel ScheduleOp SchedChoice Empty

abbrev SchedCall := Thread ScheduleOp SchedCmd SchedCmd.Resp Err Unit

def SchedCall.view (t : SchedCall) : ScheduleView := ScheduleLog.view t.log

/-- A store as the requests leave it: each record under its own ID, with a spec and a time
zone that were checked. -/
structure StoredSchedules (lib : CronLib) where
  schedules : Bucket String Schedule
  runs : Bucket String (Bucket Nat ScheduleRun) := Bucket.empty
  keyed : ∀ id s, schedules.get? id = some s → s.id = id
  valid : ∀ id s, schedules.get? id = some s → lib.validateSpec s.cronSpec s.timezone = .ok ()

namespace SchedSys

/-- `Start` registers every stored schedule. -/
def start (lib : CronLib) (stored : StoredSchedules lib) : SchedWorld :=
  stored.schedules.values.foldl (SchedWorld.register lib)
    { schedules := stored.schedules, runs := stored.runs }

def init (lib : CronLib) (stored : StoredSchedules lib) : SchedSys := { world := start lib stored }

def step (lib : CronLib) (cfg : EngineConfig) : SchedSys → SchedLabel → Option SchedSys :=
  Pool.step (ScheduleOp.body lib cfg) (SchedWorld.exec lib) fun e _ => e.elim

end SchedSys

end VMSmith
