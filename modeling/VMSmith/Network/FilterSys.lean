/-
The packet filter beside the stored rules.

A daemon's life begins with `RestoreAll`, over a filter that has none of its rules.  Then come
`Add`, `Update` and `Remove`, interleaved.  The view of a call is its account with the filter:
what it has put in and taken out that the store does not say yet.

`Clear` is the condition on a step.  No command fails once the call has changed the filter,
except the write of an `Add`, which is taken back.  A rule is about to be changed or removed by
one call at a time, and a new rule gets an ID that no other has.
-/
import VMSmith.Network.PortSys

namespace VMSmith

open PortForwarder (AddRequest ruleID)

/-- The rules that forward what the request asks for. -/
def PortForwarder.AddRequest.rules (req : AddRequest) : List IptRule := (req.toRule "").rules

/-! ### What a call has done to the filter -/

structure FilterView where
  /-- The rules that were listed. -/
  listed : Option (List PortForward) := none
  /-- The time the new rule is named after. -/
  nanos : Option Nat := none
  /-- Put into the filter, and not stored. -/
  put : List IptRule := []
  /-- Taken out of it, with the record still there. -/
  taken : List IptRule := []
  /-- The store has the change. -/
  settled : Bool := false
  /-- A command failed after the filter was changed. -/
  broken : Bool := false
  /-- The listing failed, or a rule was not put in. -/
  missed : Bool := false
  deriving DecidableEq, Repr

namespace FilterView

def isClean (v : FilterView) : Bool := v.put = [] && v.taken = []

/-- The rule with this ID among those listed. -/
def found (v : FilterView) (id : String) : Option PortForward :=
  v.listed.bind fun fwds => fwds.find? (·.id = id)

/-- What one answer adds. -/
def add (v : FilterView) : (c : Cmd) → c.Resp → FilterView
  | .store .listPortForwards, .ok rules => { v with listed := some rules }
  | .store .listPortForwards, .error _ => { v with missed := true }
  | .host .now, nanos => { v with nanos := some nanos }
  | .net (.iptables .append rule), .ok _ => { v with put := v.put ++ [rule] }
  | .net (.iptables .append _), .error _ =>
      { v with broken := v.broken || !v.isClean, missed := true }
  | .net (.iptables .delete rule), .ok _ => { v with taken := v.taken ++ [rule] }
  | .net (.iptables .delete _), .error _ => { v with broken := v.broken || !v.isClean }
  | .store (.putPortForward _), .ok _ => { v with put := [], settled := true }
  | .store (.deletePortForward _), .ok _ => { v with taken := [], settled := true }
  | .store (.deletePortForward _), .error _ => { v with broken := v.broken || !v.isClean }
  | _, _ => v

end FilterView

namespace PortCall

def filterView (t : PortCall) : FilterView := Prog.Log.account FilterView.add {} t.log

/-- The stored rule that the call is about to change or to remove. -/
def held? (t : PortCall) : Option PortForward :=
  if t.inFlight && !(filterView t).settled then
    match t.op with
    | .update id _ | .remove id => (filterView t).found id
    | _ => none
  else none

/-- The ID that the call has drawn and not stored yet. -/
def drawn? (t : PortCall) : Option String :=
  if t.inFlight && !(filterView t).settled then
    match t.op with
    | .add _ => (filterView t).nanos.map ruleID
    | _ => none
  else none

/-- A failure of the next command leaves nothing behind in the filter. -/
def mayFail (t : PortCall) : Bool :=
  t.op ≠ .restoreAll && ((filterView t).isClean ||
    match t.prog with
    | .call (.store (.putPortForward _)) _ => true
    | _ => false)

end PortCall

namespace PortSys

/-- Another call holds this rule. -/
def heldBeside (s : PortSys) (i : Nat) (id : String) : Bool :=
  (List.range s.threads.length).any fun j => j ≠ i &&
    (s.threads[j]?).any fun u => (PortCall.held? u).any fun fwd => fwd.id = id

/-- Another call has drawn this ID. -/
def drawnBeside (s : PortSys) (i : Nat) (id : String) : Bool :=
  (List.range s.threads.length).any fun j => j ≠ i &&
    (s.threads[j]?).any fun u => PortCall.drawn? u = some id

/-- Whoever looks for a rule to change or remove is alone with it; a new ID is new. -/
def apart (s : PortSys) (i : Nat) (t : PortCall) (x : Choice) : Bool :=
  match t.op, t.prog with
  | .update id _, .call (.store .listPortForwards) _
  | .remove id, .call (.store .listPortForwards) _ => !heldBeside s i id
  | .add _, .call (.host .now) _ =>
      let id := ruleID (s.world.host.clock + x.nat)
      (s.world.store.forwards.get? id).isNone && !drawnBeside s i id
  | _, _ => true

/-- `RestoreAll` comes first, and nothing comes while it is under way. -/
def mayCall (s : PortSys) (op : PortOp) : Bool :=
  if op = .restoreAll then s.threads.isEmpty
  else !s.threads.isEmpty && s.threads.all fun t => t.op ≠ .restoreAll || !t.inFlight

/-- The condition on a step. -/
def Clear (s : PortSys) : PortLabel → Prop
  | .call op => mayCall s op = true
  | .step i x => ∀ t ∈ s.threads[i]?, (x.fail.isNone || PortCall.mayFail t) = true ∧ apart s i t x = true
  | .env e => e.net.rules = s.world.net.rules
  | .restart _ => False

instance : ∀ (s : PortSys) (l : PortLabel), Decidable (Clear s l)
  | _, .call _ => inferInstanceAs (Decidable (_ = _))
  | _, .step _ _ => inferInstanceAs (Decidable (∀ _ ∈ _, _))
  | _, .env _ => inferInstanceAs (Decidable (_ = _))
  | _, .restart _ => .isFalse id

end PortSys

end VMSmith
