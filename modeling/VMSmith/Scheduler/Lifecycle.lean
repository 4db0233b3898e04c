/-
Starting and stopping the scheduler.

`Start` and `Stop` may be called at any time, by anyone; the workers, the tick loop and the
catch-up that `Start` spawns, and the cron callbacks that enqueue, run beside them.  A step is what
one of them does under the engine's lock or between two operations on a channel.

A worker does not get its channel from `Start`: it looks the field up when it first runs.
-/
import Mathlib.Tactic.SplitIfs
import VMSmith.Lib.Run

namespace VMSmith

structure Job where
  scheduleID : String
  scheduledTime : Nat
  actor : String
  deriving DecidableEq, Repr

structure JobChannel where
  queue : List Job := []
  closed : Bool := false
  deriving DecidableEq, Repr

inductive EngineWorker where
  /-- It has not run yet. -/
  | spawned
  /-- At its channel; at `nil`, for ever. -/
  | ranging (jobs : Option Nat)
  /-- Firing a job, with this many actions still to start. -/
  | firing (jobs : Option Nat) (actions : Nat)
  | done
  deriving DecidableEq, Repr

/-- Where a call of `Start` stands, once it has marked the engine started. -/
inductive StartCall where
  | listing
  /-- With this many workers still to spawn. -/
  | spawning (workers : Nat)
  | tickNext
  | catchUpNext
  | returned
  deriving DecidableEq, Repr

/-- Where a call of `Stop` stands, once it has marked the engine stopped. -/
inductive StopCall where
  /-- The channel it has taken out of the field is its to close. -/
  | closing (jobs : Option Nat)
  | waiting
  | returned
  deriving DecidableEq, Repr

structure LifecycleConfig where
  workerPoolSize : Nat
  queueSize : Nat
  workers_pos : 0 < workerPoolSize
  queue_pos : 0 < queueSize

theorem orDefault_pos (n : Int) {d : Nat} (h : 0 < d) : 0 < if n ≤ 0 then d else n.toNat := by
  by_cases hn : n ≤ 0
  · rw [if_pos hn]
    exact h
  · rw [if_neg hn]
    omega

/-- The part of `withDefaults` that is about workers and their queue. -/
def LifecycleConfig.withDefaults (workerPoolSize queueSize : Int) : LifecycleConfig where
  workerPoolSize := if workerPoolSize ≤ 0 then 4 else workerPoolSize.toNat
  queueSize := if queueSize ≤ 0 then 64 else queueSize.toNat
  workers_pos := orDefault_pos workerPoolSize (by decide)
  queue_pos := orDefault_pos queueSize (by decide)

structure EngineSys where
  started : Bool := false
  jobs : Option Nat := none
  stopClosed : Bool := false
  /-- Every channel that was ever made for jobs. -/
  channels : List JobChannel := []
  workers : List EngineWorker := []
  /-- The tick loops that run. -/
  ticks : Nat := 0
  /-- The catch-ups that run, each with the actions it is still to start. -/
  catchUps : List Nat := []
  starts : List StartCall := []
  stops : List StopCall := []
  /-- Jobs that found the queue full. -/
  skipped : List Job := []
  /-- A channel was closed twice, or sent on when closed. -/
  panicked : Bool := false
  /-- A `Stop` has returned, and the engine has not been started since. -/
  down : Bool := false
  /-- How many actions were started while it was down. -/
  strays : Nat := 0
  deriving DecidableEq, Repr

inductive EngineLabel where
  | start
  /-- The schedules are listed and registered, or cannot be. -/
  | listed (k : Nat) (ok : Bool)
  | spawn (k : Nat)
  | tickLoop (k : Nat)
  /-- The catch-up is spawned; its fires start so many actions. -/
  | catchUp (k actions : Nat)
  /-- A cron callback. -/
  | enqueue (j : Job)
  /-- A worker looks its channel up. -/
  | read (w : Nat)
  /-- It takes a job, whose fire starts so many actions. -/
  | take (w actions : Nat)
  | act (w : Nat)
  | fired (w : Nat)
  /-- Its channel is closed and empty. -/
  | exit (w : Nat)
  | replay (i : Nat)
  | caughtUp (i : Nat)
  /-- The stop channel is closed, or the context is done. -/
  | tickEnds
  | stop
  | closeJobs (k : Nat)
  | waited (k : Nat)
  deriving DecidableEq, Repr

namespace EngineSys

/-- A channel that was made is open or closed. -/
def closedAt (s : EngineSys) (c : Nat) : Option Bool := s.channels[c]?.map JobChannel.closed

/-- An action starts. -/
def countAction (s : EngineSys) : EngineSys := { s with strays := s.strays + if s.down then 1 else 0 }

def setWorker (s : EngineSys) (w : Nat) (worker : EngineWorker) : EngineSys :=
  { s with workers := s.workers.set w worker }

def setStart (s : EngineSys) (k : Nat) (call : StartCall) : EngineSys := { s with starts := s.starts.set k call }

def setStop (s : EngineSys) (k : Nat) (call : StopCall) : EngineSys := { s with stops := s.stops.set k call }

def setQueue (s : EngineSys) (c : Nat) (ch : JobChannel) (queue : List Job) : EngineSys :=
  { s with channels := s.channels.set c { ch with queue := queue } }

/-- `Start`, up to where it lets go of the lock. -/
def start (s : EngineSys) : EngineSys :=
  if s.started then s
  else { s with
    started := true
    jobs := some s.channels.length
    channels := s.channels ++ [{}]
    starts := s.starts ++ [.listing]
    down := false }

/-- `Stop`, up to where it lets go of the lock. -/
def stop (s : EngineSys) : EngineSys :=
  if s.started then
    if s.stopClosed then { s with panicked := true }
    else { s with
      started := false
      stopClosed := true
      stops := s.stops ++ [.closing s.jobs]
      jobs := none }
  else { s with down := true }

def enqueue (cfg : LifecycleConfig) (s : EngineSys) (j : Job) : EngineSys :=
  match s.jobs with
  | none => s
  | some c =>
      match s.channels[c]? with
      | none => s
      | some ch =>
          if ch.closed then { s with panicked := true }
          else if ch.queue.length < cfg.queueSize then s.setQueue c ch (ch.queue ++ [j])
          else { s with skipped := s.skipped ++ [j] }

def closeJobs (s : EngineSys) (k : Nat) (jobs : Option Nat) : EngineSys :=
  match jobs with
  | none => s.setStop k .waiting
  | some c =>
      match s.channels[c]? with
      | none => s.setStop k .waiting
      | some ch =>
          if ch.closed then { s with panicked := true }
          else { s.setStop k .waiting with channels := s.channels.set c { ch with closed := true } }

/-- The wait group counts nobody. -/
def waitDone (s : EngineSys) : Bool := s.workers.all (· = .done) && s.ticks = 0 && s.catchUps = []

def move (cfg : LifecycleConfig) (s : EngineSys) : EngineLabel → Option EngineSys
  | .start => some s.start
  | .listed k ok =>
      if s.starts[k]? = some .listing then
        some (s.setStart k (if ok then .spawning cfg.workerPoolSize else .returned))
      else none
  | .spawn k =>
      match s.starts[k]? with
      | some (.spawning (n + 1)) =>
          some { s.setStart k (if n = 0 then .tickNext else .spawning n) with workers := s.workers ++ [.spawned] }
      | _ => none
  | .tickLoop k =>
      if s.starts[k]? = some .tickNext then some { s.setStart k .catchUpNext with ticks := s.ticks + 1 }
      else none
  | .catchUp k actions =>
      if s.starts[k]? = some .catchUpNext then
        some { s.setStart k .returned with catchUps := s.catchUps ++ [actions] }
      else none
  | .enqueue j => some (s.enqueue cfg j)
  | .read w => if s.workers[w]? = some .spawned then some (s.setWorker w (.ranging s.jobs)) else none
  | .take w actions =>
      match s.workers[w]? with
      | some (.ranging (some c)) =>
          match s.channels[c]? with
          | some ch =>
              match ch.queue with
              | _ :: rest => some ((s.setQueue c ch rest).setWorker w (.firing (some c) actions))
              | [] => none
          | none => none
      | _ => none
  | .act w =>
      match s.workers[w]? with
      | some (.firing jobs (n + 1)) => some (s.countAction.setWorker w (.firing jobs n))
      | _ => none
  | .fired w =>
      match s.workers[w]? with
      | some (.firing jobs 0) => some (s.setWorker w (.ranging jobs))
      | _ => none
  | .exit w =>
      match s.workers[w]? with
      | some (.ranging (some c)) =>
          if s.channels[c]? = some { closed := true } then some (s.setWorker w .done) else none
      | _ => none
  | .replay i =>
      match s.catchUps[i]? with
      | some (n + 1) => some { s.countAction with catchUps := s.catchUps.set i n }
      | _ => none
  | .caughtUp i => if s.catchUps[i]? = some 0 then some { s with catchUps := s.catchUps.eraseIdx i } else none
  | .tickEnds => if 0 < s.ticks then some { s with ticks := s.ticks - 1 } else none
  | .stop => some s.stop
  | .closeJobs k =>
      match s.stops[k]? with
      | some (.closing jobs) => some (s.closeJobs k jobs)
      | _ => none
  | .waited k =>
      if s.stops[k]? = some .waiting ∧ s.waitDone then
        some { s.setStop k .returned with down := !s.started }
      else none

/-- A program that has panicked goes no further. -/
def step (cfg : LifecycleConfig) (s : EngineSys) (l : EngineLabel) : Option EngineSys :=
  if s.panicked then none else s.move cfg l

end EngineSys

end VMSmith
