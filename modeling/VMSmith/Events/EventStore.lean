/-
Events and the bucket they are stored in.

`AppendEvent` takes the next value of the bucket's sequence counter, stamps it on
the event as its ID and writes the event under it.  The counter is a `uint64` and
the key is its big-endian encoding, so key order is number order and a cursor walks
the events oldest first.
-/
import VMSmith.Lib.Bucket

namespace VMSmith

/-- An event as it is published, stored and streamed. -/
structure Event where
  /-- Assigned by the bus: the decimal sequence number, or a transient mark. -/
  id : String := ""
  type : String
  source : String := ""
  vmID : String := ""
  resourceID : String := ""
  severity : String := ""
  message : String := ""
  attributes : List (String × String) := []
  actor : String := ""
  /-- In nanoseconds; zero when the publisher left it unset. -/
  occurredAt : Nat := 0
  createdAt : Nat := 0
  deriving DecidableEq, Repr

/-- The events bucket and its sequence counter. -/
structure EventStore where
  sequence : Nat
  bucket : Bucket Nat Event
  deriving DecidableEq

namespace EventStore

/-- The counter wraps as a `uint64` does. -/
def nextSequence (s : EventStore) : Nat := (s.sequence + 1) % 2 ^ 64

/-- `AppendEvent`, where the transaction commits. -/
def appendEvent (s : EventStore) (event : Event) : Nat × EventStore :=
  let seq := s.nextSequence
  (seq, { sequence := seq, bucket := s.bucket.put seq { event with id := toString seq } })

/-- `ListEventsAfterSeq`: up to `limit` events above `afterSeq`, oldest first. -/
def listEventsAfterSeq (s : EventStore) (afterSeq limit : Nat) : List Event :=
  let walked := (s.bucket.seek ((afterSeq + 1) % 2 ^ 64)).map Prod.snd
  if 0 < limit then walked.take limit else walked

/-- Every stored event carries its own key as its ID, and no key is ahead of the
counter. -/
structure Stamped (s : EventStore) : Prop where
  counter : s.sequence < 2 ^ 64
  bounded : ∀ n e, s.bucket.get? n = some e → n ≤ s.sequence
  stamped : ∀ n e, s.bucket.get? n = some e → e.id = toString n

/-- As long as the counter does not wrap, an append takes the next number and keeps
the store stamped. -/
theorem appendEvent_stamped {s : EventStore} (h : s.Stamped) (hlt : s.sequence + 1 < 2 ^ 64)
    (event : Event) : (s.appendEvent event).2.Stamped := by
  have hseq : s.nextSequence = s.sequence + 1 := Nat.mod_eq_of_lt hlt
  constructor
  · show s.nextSequence < 2 ^ 64
    omega
  · intro n e hn
    rcases Bucket.mem_put hn with ⟨rfl, -⟩ | ⟨-, hold⟩
    · exact le_refl _
    · have := h.bounded n e hold
      show n ≤ s.nextSequence
      omega
  · intro n e hn
    rcases Bucket.mem_put hn with ⟨rfl, rfl⟩ | ⟨-, hold⟩
    · rfl
    · exact h.stamped n e hold

end EventStore

end VMSmith
