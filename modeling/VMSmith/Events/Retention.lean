/-
Retention of the stored events.

A sweep deletes the oldest numbered events above the record limit and then walks the numbered
events in their order, deleting until it meets one that is newer than the cutoff.  At most
5000 go at once in either phase.  A sweep that deleted something publishes an event about it,
which the bus appends to the same bucket.
-/
import VMSmith.Events.EventList

namespace VMSmith

open Go

def maxPerSweep : Nat := 5000

/-- `NewRetention`: a limit that is not positive disables its phase. -/
structure Retention where
  maxRecords : Int
  /-- In nanoseconds. -/
  maxAge : Int
  deriving DecidableEq, Repr

namespace StoredEvents

/-- The keys that are numbers, in order. -/
def seqKeys (s : StoredEvents) : List Bytes :=
  (s.bucket.entries.map Prod.fst).filter fun key => key.length = 8

/-- `CountEvents`. -/
def countEvents (s : StoredEvents) : Nat := s.seqKeys.length

/-- `b.Delete` of each of the keys. -/
def deleteKeys (s : StoredEvents) : List Bytes → StoredEvents
  | [] => s
  | key :: keys =>
      deleteKeys ⟨s.sequence, s.bucket.erase key, fun key' value hget hlen =>
        s.written key' value (Bucket.mem_erase.mp hget).2 hlen⟩ keys

/-- `PruneEvents`, of a positive limit. -/
def pruneEvents (s : StoredEvents) (maxRecords : Int) : Nat × StoredEvents :=
  let keys := s.seqKeys
  let excess := keys.length - maxRecords
  if excess ≤ 0 then (0, s)
  else
    let excess : Int := if maxPerSweep < excess then maxPerSweep else excess
    let oldest := keys.take excess.toNat
    (oldest.length, s.deleteKeys oldest)

/-- The walk of `PruneEventsByAge`: it ends at an event that is newer than the cutoff or has
no time, and when it has enough. -/
def staleLoop (cutoff : Int) (staleKeys : List Bytes) : List (Bytes × Option Event) → List Bytes
  | [] => staleKeys
  | (key, value) :: later =>
      if key.length ≠ 8 then staleLoop cutoff staleKeys later
      else
        match value with
        | none => staleLoop cutoff staleKeys later
        | some evt =>
            if evt.occurredAt = 0 ∨ cutoff < evt.occurredAt then staleKeys
            else
              let staleKeys := staleKeys ++ [key]
              if maxPerSweep ≤ staleKeys.length then staleKeys
              else staleLoop cutoff staleKeys later

/-- `PruneEventsByAge`, at the time `now`. -/
def pruneEventsByAge (s : StoredEvents) (maxAge : Int) (now : Nat) : Nat × StoredEvents :=
  if maxAge ≤ 0 then (0, s)
  else
    let cutoff := now - maxAge
    let staleKeys := staleLoop cutoff [] s.bucket.entries
    (staleKeys.length, s.deleteKeys staleKeys)

end StoredEvents

/-- The event a sweep publishes about itself. -/
def retentionPruned (r : Retention) (deletedRecords deletedAge now : Nat) : Event where
  type := "events.retention_pruned"
  source := "system"
  severity := "info"
  message := "events retention sweep deleted old events"
  attributes := [("deleted", toString (deletedRecords + deletedAge)),
    ("deleted_max_records", toString deletedRecords), ("deleted_max_age", toString deletedAge),
    ("max_records", toString r.maxRecords), ("max_age_seconds", toString (r.maxAge.tdiv 1000000000))]
  occurredAt := now
  createdAt := now

/-- `sweep`: the store behind it and the event it publishes, if it deleted something. -/
def Retention.sweep (r : Retention) (s : StoredEvents) (now : Nat) : StoredEvents × Option Event :=
  let (deletedRecords, s) := if 0 < r.maxRecords then s.pruneEvents r.maxRecords else (0, s)
  let (deletedAge, s) := if 0 < r.maxAge then s.pruneEventsByAge r.maxAge now else (0, s)
  if deletedRecords + deletedAge = 0 then (s, none)
  else (s, some (retentionPruned r deletedRecords deletedAge now))

/-- A sweep, and the bus storing what it published. -/
def Retention.round (r : Retention) (s : StoredEvents) (now : Nat) : StoredEvents :=
  match r.sweep s now with
  | (s, none) => s
  | (s, some evt) => (s.appendEvent evt).2

end VMSmith
