/-
The predicates an event list and an event stream have in common.
-/
import VMSmith.Events.EventStore
import VMSmith.Lib.GoStrings

namespace VMSmith

open Go (trimSpace toLower hasPrefix contains)

/-- `eventSeverityRanks`. -/
def eventSeverityRanks : List (String × Nat) := [("info", 0), ("warn", 1), ("error", 2)]

/-- `EventSeverityRank`, `none` for what is no severity. -/
def eventSeverityRank (severity : String) : Option Nat :=
  eventSeverityRanks.lookup (toLower (trimSpace severity))

/-- `EventMeetsMinSeverity`. -/
def eventMeetsMinSeverity (evt : Event) (minSeverity : String) : Bool :=
  match eventSeverityRank minSeverity with
  | none => true
  | some minRank => minRank ≤ (eventSeverityRank evt.severity).getD 0

/-- `substrFoldMatch`. -/
def substrFoldMatch (haystack needle : String) : Bool :=
  if haystack = "" then false else contains (toLower haystack) needle

/-- `EventMatchesSearch`. -/
def eventMatchesSearch (evt : Event) (query : String) : Bool :=
  if query = "" then true
  else if substrFoldMatch evt.message query || substrFoldMatch evt.type query ||
      substrFoldMatch evt.source query || substrFoldMatch evt.severity query ||
      substrFoldMatch evt.actor query || substrFoldMatch evt.vmID query ||
      substrFoldMatch evt.resourceID query then true
  else evt.attributes.any fun entry => substrFoldMatch entry.2 query

/-- `EventStreamFilter`. -/
structure EventStreamFilter where
  vmID : String := ""
  type : String := ""
  source : String := ""
  severity : String := ""
  minSeverity : String := ""
  actor : String := ""
  resourceID : String := ""
  typePrefix : String := ""
  search : String := ""
  deriving DecidableEq, Repr

/-- `EventMatchesStreamFilter`. -/
def eventMatchesStreamFilter (evt : Event) (f : EventStreamFilter) : Bool :=
  if f.vmID ≠ "" ∧ evt.vmID ≠ f.vmID then false
  else if f.type ≠ "" ∧ evt.type ≠ f.type then false
  else if f.source ≠ "" ∧ evt.source ≠ f.source then false
  else if f.severity ≠ "" ∧ evt.severity ≠ f.severity then false
  else if f.minSeverity ≠ "" ∧ ¬ eventMeetsMinSeverity evt f.minSeverity then false
  else if f.actor ≠ "" ∧ evt.actor ≠ f.actor then false
  else if f.resourceID ≠ "" ∧ evt.resourceID ≠ f.resourceID then false
  else if f.typePrefix ≠ "" ∧ ¬ hasPrefix (toLower evt.type) f.typePrefix then false
  else if f.search ≠ "" ∧ ¬ eventMatchesSearch evt f.search then false
  else true

end VMSmith
