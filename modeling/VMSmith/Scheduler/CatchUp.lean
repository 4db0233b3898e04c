/-
Catching up on the fires that were missed while the daemon was down.

`missedFires` asks the cron schedule for one instant after another.  An instant is a number of
nanoseconds after the zero time, and the zero time is what the schedule answers when it finds no
instant within its search horizon.
-/
import VMSmith.Scheduler.Engine

namespace VMSmith

open Go (trimSpace)

/-- The loop of `missedFires`, with the instant `t` next. -/
def missedLoop (next : Nat → Nat) (now : Nat) (max : Int) (out : List Nat) (t : Nat) : List Nat :=
  if now < t then out
  else if 0 < max ∧ max ≤ (out ++ [t]).length then out ++ [t]
  else if next t ≤ t then out ++ [t]
  else missedLoop next now max (out ++ [t]) (next t)
termination_by now + 1 - t

/-- `missedFires`, of a schedule whose `Next` is `next`. -/
def missedFires (next : Nat → Nat) (lastTick now : Nat) (max : Int) : List Nat :=
  if lastTick = 0 ∨ now ≤ lastTick then [] else missedLoop next now max [] (next lastTick)

/-- What `runCatchUp` does: publish an event, or hand a fire to the dispatcher. -/
inductive CatchUpAct where
  | emit (evt : Nat → Event)
  | fire (scheduleID : String) (scheduledTime : Nat)

/-- The event that announces a replay. -/
def catchUpReplayed (s : Schedule) (message : String) (missed replayed : Nat) : Nat → Event :=
  appEvent "schedule.catch_up_replayed" "" "scheduler" ("schedule \"" ++ s.name ++ "\" " ++ message)
    [("schedule_id", s.id), ("missed", toString missed), ("replayed", toString replayed)]

/-- One turn of the loop of `runCatchUp`. -/
def catchUp (lib : CronLib) (maxCatchUp : Int) (lastTick now : Nat) (s : Schedule) :
    List CatchUpAct :=
  if ¬ s.enabled then []
  else if s.catchUpPolicy = .skip then []
  else
    match lib.parseError (trimSpace s.cronSpec), lib.location s.timezone with
    | none, some tz =>
        let missed := missedFires (lib.next (trimSpace s.cronSpec) tz) lastTick now maxCatchUp
        match missed.getLast?, s.catchUpPolicy with
        | some last, .runOnce =>
            [.emit (catchUpReplayed s
                ("replaying 1 of " ++ toString missed.length ++ " missed fire(s)") missed.length 1),
              .fire s.id last]
        | some _, .runAll =>
            .emit (catchUpReplayed s ("replaying " ++ toString missed.length ++ " missed fire(s)")
              missed.length missed.length) :: missed.map (.fire s.id)
        | _, _ => []
    | _, _ => []

/-- `runCatchUp`, at the time `now`. -/
def runCatchUp (lib : CronLib) (maxCatchUp : Int) (scheds : List Schedule) (lastTick now : Nat) :
    List CatchUpAct :=
  if lastTick = 0 then [] else scheds.flatMap (catchUp lib maxCatchUp lastTick now)

/-- What an act comes to in the engine. -/
def CatchUpAct.perform (lib : CronLib) (cfg : EngineConfig) : CatchUpAct → SchedM Unit
  | .emit evt => VMSmith.emit evt
  | .fire scheduleID scheduledTime => VMSmith.fire lib cfg scheduleID scheduledTime "scheduler"

/-- The fires that are handed to the dispatcher for a schedule. -/
def firesOf (scheduleID : String) (acts : List CatchUpAct) : List Nat :=
  acts.filterMap fun
    | .fire id t => if id = scheduleID then some t else none
    | .emit _ => none

end VMSmith
