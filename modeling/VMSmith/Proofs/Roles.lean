/-
The role a request needs is the role its handler needs.

The middleware reads the end of the decoded path with its slashes trimmed; the router goes
through the segments of the raw one.  Behind the API key every pattern of a POST route
ends in segments that are written out, apart from the slash of a mounted router.  These
are spelled in the path as they are in the pattern, decoding leaves them alone, and so the
two readings meet at the same end.
-/
import VMSmith.Api.Router

namespace VMSmith.Api

open Go Prog

/-! ### Where a pattern ends -/

def Segment.isLit : Segment → Bool
  | .lit _ => true
  | _ => false

def Segment.text : Segment → Bytes
  | .lit s => s
  | _ => []

/-- The segments a pattern ends in that are written out. -/
def Pattern.tail (p : Pattern) : List Bytes := (p.rtakeWhile Segment.isLit).map Segment.text

/-- The pattern with all it is mounted in. -/
def Route.full (ρ : Route) : Pattern := ρ.mounts.flatten ++ ρ.pattern

/-- The segments with a name that a route's pattern ends in. -/
def Route.ending (ρ : Route) : List Bytes := ρ.full.tail.rdropWhile (· = [])

/-- An end by which a path can be told. -/
def Telling (ending : List Bytes) : Prop :=
  ∃ last, ending.getLast? = some last ∧ last ≠ [] ∧ Url.slash ∉ last ∧
    0x25 ∉ Url.behind ending

/-- What an operator may call: the lifecycle verbs, for one VM or many, console tickets and
the runs of a schedule. -/
def operatorHandlers : List Handler :=
  [.startVM, .stopVM, .forceStopVM, .restartVM, .rebootVM, .suspendVM, .resumeVM, .bulkVMAction,
    .issueConsoleTicket, .runNowSchedule]

/-- The ends of a path by which the middleware knows an operator's request. -/
def operatorSuffixes : List Bytes := operatorPOSTSuffixes ++ [ascii "/vms/bulk"]

/-- The end of a POST route's pattern says whose it is. -/
structure Told (ρ : Route) : Prop where
  telling : Telling ρ.ending
  suffix : ρ.handler ∈ operatorHandlers → ∃ t ∈ operatorSuffixes, t <:+ Url.behind ρ.ending
  other : ρ.handler ∉ operatorHandlers → ∀ last ∈ ρ.ending.getLast?,
    last ∉ operatorSuffixes.map Url.lastSegment

instance (ending : List Bytes) : Decidable (Telling ending) :=
  decidable_of_iff (∃ last ∈ ending.getLast?, last ≠ [] ∧ Url.slash ∉ last ∧
    0x25 ∉ Url.behind ending) (exists_congr fun _ => Iff.rfl)

/-- The command deletes no VM. -/
def BulkCmd.Keeps (c : BulkCmd) : Prop := ∀ id, c ≠ .apply .delete id

end VMSmith.Api
