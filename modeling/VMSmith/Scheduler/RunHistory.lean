/-
The runs of the schedules as the store keeps them.

A run is stored under the ID of its schedule, a slash and the eight bytes of the time it
started; the runs of a schedule are the entries whose keys begin with the ID and the slash.
Appending one deletes the first of them above a limit in the same transaction.
-/
import VMSmith.Events.EventList
import VMSmith.Lib.Scan
import VMSmith.Types.Schedule

namespace VMSmith

open Go

/-- A run in the store.  Times are in nanoseconds since 1970. -/
structure StoredRun where
  id : Bytes := []
  scheduleID : Bytes := []
  vmID : Bytes := []
  startedAt : Int
  finishedAt : Option Int := none
  status : ScheduleRunStatus
  error : Bytes := []
  skipReason : Option ScheduleRunSkipReason := none
  deriving DecidableEq, Repr

/-- The zero `time.Time`, the start of the year 1. -/
def zeroTime : Int := -62135596800 * 1000000000

/-- `uint64(t.UnixNano())`. -/
def unixNano (t : Int) : Nat := (t % 2 ^ 64).toNat

/-- `time.Time` has a JSON form from the year 0 up to the year 9999. -/
def hasJSON (t : Int) : Prop := -62167219200 * 1000000000 ≤ t ∧ t < 253402300800 * 1000000000

instance (t : Int) : Decidable (hasJSON t) := inferInstanceAs (Decidable (_ ∧ _))

/-- The longest key of the embedded store. -/
def maxKeySize : Nat := 32768

def slash : UInt8 := 0x2F

def runHistoryLimit : Nat := 200

def scheduleRunKey (scheduleID : Bytes) (startedAt : Nat) : Bytes :=
  scheduleID ++ slash :: encodeSeqKey startedAt

/-- What the keys of a schedule's runs begin with. -/
def runPrefix (scheduleID : Bytes) : Bytes := scheduleID ++ [slash]

/-- A call of `AppendRun`, and the time it is made. -/
structure RunCall where
  scheduleID : Bytes
  run : StoredRun
  now : Int
  deriving DecidableEq, Repr

/-- The run with its schedule and its start filled in. -/
def RunCall.stored (c : RunCall) : StoredRun :=
  let run := if c.run.scheduleID = [] then { c.run with scheduleID := c.scheduleID } else c.run
  if run.startedAt = zeroTime then { run with startedAt := c.now } else run

def RunCall.key (c : RunCall) : Bytes := scheduleRunKey c.scheduleID (unixNano c.stored.startedAt)

/-- `AppendRun`; `none` where the transaction fails. -/
def appendRun (b : Bucket Bytes StoredRun) (c : RunCall) : Option (Bucket Bytes StoredRun) :=
  if ¬ hasJSON c.stored.startedAt ∨ ∃ t ∈ c.stored.finishedAt, ¬ hasJSON t then none
  else if maxKeySize < c.key.length then none
  else
    let b := b.put c.key c.stored
    let keys := (b.scan (runPrefix c.scheduleID)).map Prod.fst
    let excess := keys.length - runHistoryLimit
    some (b.eraseAll (keys.take excess))

/-- The loop of `ListRuns`, from the last key down. -/
def listRunsLoop (start : Bytes) (limit : Int) (runs : List StoredRun) :
    List (Bytes × StoredRun) → List StoredRun
  | [] => runs
  | (key, run) :: older =>
      if ¬ start.isPrefixOf key then
        if key < start then runs else listRunsLoop start limit runs older
      else
        let runs := runs ++ [run]
        if 0 < limit ∧ limit ≤ runs.length then runs else listRunsLoop start limit runs older

/-- `ListRuns`. -/
def listRuns (b : Bucket Bytes StoredRun) (scheduleID : Bytes) (limit : Int) : List StoredRun :=
  listRunsLoop (runPrefix scheduleID) limit [] b.entries.reverse

/-- The bucket, and the runs that were appended, in order. -/
structure RunBook where
  runs : Bucket Bytes StoredRun := Bucket.empty
  appended : List (Bytes × StoredRun) := []
  deriving DecidableEq

namespace RunBook

def step (w : RunBook) (c : RunCall) : Option RunBook :=
  match appendRun w.runs c with
  | none => some w
  | some runs => some ⟨runs, w.appended ++ [(c.scheduleID, c.stored)]⟩

/-- The runs that were appended for a schedule. -/
def of (w : RunBook) (scheduleID : Bytes) : List StoredRun :=
  (w.appended.filter fun p => p.1 = scheduleID).map Prod.snd

end RunBook

end VMSmith
