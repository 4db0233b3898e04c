/-
The orders of an event list, and the handler that serves it.

Without a wish for another order the page comes from the store as it is; any other order
is made of the whole list.
-/
import VMSmith.Events.EventList
import VMSmith.Lib.GoSort
import VMSmith.Types.VM

namespace VMSmith

open Go (trimSpace toLower)

/-- The event list sort fields. -/
inductive EventSort
  | id | occurredAt | type | source | severity | actor | resourceID | vmID
  deriving DecidableEq, Repr

inductive SortOrder
  | asc | desc
  deriving DecidableEq, Repr

/-- Two texts are compared, and the IDs where they are the same. -/
def lessThenID (x y xID yID : String) : Bool := if x ≠ y then x < y else xID < yID

/-- The same, with the empty text behind every other. -/
def lessEmptyLast (x y xID yID : String) : Bool :=
  if x = "" ∧ y = "" then xID < yID
  else if x = "" then false
  else if y = "" then true
  else lessThenID x y xID yID

/-- The comparison of `SortEvents`. -/
def eventLess (field : EventSort) (a b : Event) : Bool :=
  match field with
  | .occurredAt => if a.timestamp ≠ b.timestamp then a.timestamp < b.timestamp else a.id < b.id
  | .type => lessThenID (toLower a.type) (toLower b.type) a.id b.id
  | .source => lessThenID (toLower a.source) (toLower b.source) a.id b.id
  | .severity => lessThenID (toLower a.severity) (toLower b.severity) a.id b.id
  | .actor => lessEmptyLast a.actor b.actor a.id b.id
  | .resourceID => lessEmptyLast a.resourceID b.resourceID a.id b.id
  | .vmID => lessEmptyLast a.vmID b.vmID a.id b.id
  | .id => a.id < b.id

/-- `SortEvents`. -/
def sortEvents (events : List Event) (field : EventSort) (order : SortOrder) : List Event :=
  Go.sliceStable
    (fun a b => if order = .desc then !eventLess field a b else eventLess field a b) events

/-! ### The request -/

/-- The parameters of the list, as they come with the request. -/
structure EventQuery where
  sort : String := ""
  order : String := ""
  vmID : String := ""
  type : String := ""
  typePrefix : String := ""
  source : String := ""
  severity : String := ""
  minSeverity : String := ""
  actor : String := ""
  resourceID : String := ""
  search : String := ""
  untilSeq : String := ""
  since : String := ""
  page : String := ""
  perPage : String := ""
  limit : String := ""
  deriving DecidableEq, Repr

/-- What the list is asked for. -/
structure EventListing where
  sortField : EventSort
  order : SortOrder
  filter : EventFilter
  page : Int
  perPage : Int
  deriving DecidableEq, Repr

/-- `parseEventSort`. -/
def parseEventSort (sort order : String) : Except Err (EventSort × SortOrder) := do
  let field ←
    match trimSpace (toLower sort) with
    | "" | "id" => .ok EventSort.id
    | "occurred_at" => .ok .occurredAt
    | "type" => .ok .type
    | "source" => .ok .source
    | "severity" => .ok .severity
    | "actor" => .ok .actor
    | "resource_id" => .ok .resourceID
    | "vm_id" => .ok .vmID
    | _ => .error (.api "invalid_sort"
        "sort must be one of: id, occurred_at, type, source, severity, actor, resource_id, vm_id")
  match trimSpace (toLower order) with
  | "" | "desc" => .ok (field, .desc)
  | "asc" => .ok (field, .asc)
  | _ => .error (.api "invalid_order" "order must be 'asc' or 'desc'")

def maxPerPage : Int := 2000

/-- `parsePagination`: the page and its size, none when it is `0`. -/
def parsePagination (q : EventQuery) : Int × Int :=
  let positive := fun (s : String) (unset : Int) =>
    match Go.atoi (trimSpace s) with
    | some n => if 0 < n then n else unset
    | none => unset
  let perPage := if trimSpace q.perPage ≠ "" then positive q.perPage 0 else positive q.limit 0
  (positive q.page 1, if maxPerPage < perPage then maxPerPage else perPage)

section

/- `time.Parse(time.RFC3339Nano, …)`. -/
variable (parseTime : String → Option Nat)

/-- The checks at the start of `ListEvents`. -/
def parseEventListing (q : EventQuery) : Except Err EventListing := do
  let (sortField, order) ← parseEventSort q.sort q.order
  let minSeverity := toLower (trimSpace q.minSeverity)
  if minSeverity ≠ "" ∧ eventSeverityRank minSeverity = none then
    throw (.api "invalid_min_severity" "min_severity must be one of: info, warn, error")
  let untilSeq ←
    if trimSpace q.untilSeq = "" then pure 0
    else
      match Go.parseUint64 (trimSpace q.untilSeq) with
      | some n => pure n.toUInt64
      | none => throw (.api "invalid_until" "until must be a uint64 sequence ID")
  let since ←
    if trimSpace q.since = "" then pure Since.unset
    else
      match parseTime (trimSpace q.since) with
      | some t => pure (if t = 0 then Since.unset else Since.time t)
      | none => throw (.api "invalid_since" "since must be a valid RFC3339 timestamp")
  let (page, perPage) := parsePagination q
  return {
    sortField := sortField
    order := order
    filter := {
      vmID := trimSpace q.vmID
      type := trimSpace q.type
      source := trimSpace q.source
      severity := trimSpace q.severity
      minSeverity := minSeverity
      actor := trimSpace q.actor
      resourceID := trimSpace q.resourceID
      typePrefix := toLower (trimSpace q.typePrefix)
      search := toLower (trimSpace q.search)
      untilSeq := untilSeq
      since := since }
    page := page
    perPage := perPage }

/-- What `ListEvents` answers to a request that passed its checks: the page and the total
count, `none` where a slice is out of bounds. -/
def StoredEvents.serveList (s : StoredEvents) (l : EventListing) : Option (List Event × Nat) := do
  let defaultSort := l.sortField = .id ∧ l.order = .desc
  let filter :=
    if defaultSort then { l.filter with page := l.page, perPage := l.perPage }
    else { l.filter with page := 0, perPage := 0 }
  let (filtered, total) ← s.listEventsFiltered filter
  if defaultSort then return (filtered, total)
  let page ← paginate l.page l.perPage (sortEvents filtered l.sortField l.order)
  return (page, total)

/-- `ListEvents`. -/
def StoredEvents.listEvents (s : StoredEvents) (q : EventQuery) :
    Except Err (Option (List Event × Nat)) :=
  (parseEventListing parseTime q).map s.serveList

end

end VMSmith
